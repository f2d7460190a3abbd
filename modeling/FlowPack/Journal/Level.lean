import FlowPack.Text.Quoted

namespace FlowPack.Journal

inductive Level where
  | debug
  | info
  | warn
  | error
  | fatal
  deriving DecidableEq, Repr

namespace Level

def code : Level → Nat
  | debug => 0
  | info => 1
  | warn => 2
  | error => 3
  | fatal => 4

/-- Unknown numbers stand for `info`. -/
def ofCode (n : Int) : Level :=
  if n = 0 then debug
  else if n = 2 then warn
  else if n = 3 then error
  else if n = 4 then fatal
  else info

def name : Level → String
  | debug => "DEBUG"
  | info => "INFO"
  | warn => "WARN"
  | error => "ERROR"
  | fatal => "FATAL"

def nameOfCode (n : Int) : String :=
  if 0 ≤ n ∧ n ≤ 4 then (ofCode n).name else s!"LEVEL({n})"

/-- The level a name stands for; case and outer white space are ignored, and no name at all
means `info`. -/
def parse? (t : Text) : Option Level :=
  match t.trim.word? with
  | some "debug" => some debug
  | some "info" => some info
  | some "" => some info
  | some "warn" => some warn
  | some "warning" => some warn
  | some "error" => some error
  | some "fatal" => some fatal
  | _ => none

def unknownMessage (t : Text) : String := "unknown log level " ++ t.quoted

/-- Whether a line of level `l` is written at threshold `least`. -/
def reaches (l least : Level) : Bool := least.code ≤ l.code

end Level

end FlowPack.Journal
