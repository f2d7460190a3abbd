import FlowPack.Archive.Offset

namespace FlowPack.Command

inductive Flag where
  | base
  | config
  | debug
  | format
  | help
  | names
  | variant
  deriving DecidableEq, Repr

namespace Flag

def name : Flag → String
  | base => "base"
  | config => "config"
  | debug => "debug"
  | format => "format"
  | help => "help"
  | names => "names"
  | variant => "variant"

def letter? : Flag → Option Char
  | base => some 'b'
  | help => some 'h'
  | _ => none

def valueWord? : Flag → Option String
  | base => some "integer"
  | debug => none
  | help => none
  | _ => some "string"

def isSwitch (f : Flag) : Bool := f.valueWord?.isNone

def title (f : Flag) : String :=
  match f.letter? with
  | some c => s!"-{c}, --{f.name}"
  | none => s!"--{f.name}"

end Flag

structure Options where
  base : Option UInt32 := none
  config : String := ""
  debug : Bool := false
  format : String := "table"
  help : Bool := false
  names : String := ""
  variant : String := ""
  deriving DecidableEq, Repr

/-- The base as its flag shows it: a literal, or nothing when no base was given. -/
def Options.baseText (o : Options) : String :=
  match o.base with
  | some w => Archive.Offset.format w
  | none => ""

inductive ValueError where
  | offset (value : String)
  | truth (value : String)
  deriving DecidableEq, Repr

def ValueError.message : ValueError → String
  | offset value => Archive.Offset.invalidMessage (.ofString value)
  | truth value =>
    "strconv.ParseBool: parsing " ++ (Text.ofString value).quoted ++ ": invalid syntax"

def truth? (value : String) : Option Bool :=
  if value ∈ ["1", "t", "T", "TRUE", "true", "True"] then some true
  else if value ∈ ["0", "f", "F", "FALSE", "false", "False"] then some false
  else none

def readTruth (value : String) : Except ValueError Bool :=
  match truth? value with
  | some b => .ok b
  | none => .error (.truth value)

def Options.set (o : Options) (f : Flag) (value : String) : Except ValueError Options :=
  match f with
  | .base =>
    match Archive.Offset.parse? (.ofString value) with
    | some w => .ok { o with base := some w }
    | none => .error (.offset value)
  | .config => .ok { o with config := value }
  | .debug => do return { o with debug := ← readTruth value }
  | .format => .ok { o with format := value }
  | .help => do return { o with help := ← readTruth value }
  | .names => .ok { o with names := value }
  | .variant => .ok { o with variant := value }

end FlowPack.Command
