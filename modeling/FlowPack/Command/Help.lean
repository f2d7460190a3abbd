import FlowPack.Command.Tree
import FlowPack.Report.Grid

namespace FlowPack.Command

open Report (spaces)

def flagPurpose (c : Command) : Flag → String
  | .base => "the base offset, overrides --variant (defaults to the variant's base)"
  | .config => "YAML config file"
  | .debug => "enable debug logging"
  | .format => "output format: table or json (default \"table\")"
  | .help => s!"help for {c.name}"
  | .names => "JSON name table used to label candidates"
  | .variant =>
    "archive variant: rhmpatch, saltwater-us, saltwater-eu, saltwater-jp or saltwater-kr"

def flagLead (f : Flag) : String :=
  let lead := match f.letter? with
    | some c => s!"  -{c}, --{f.name}"
    | none => s!"      --{f.name}"
  match f.valueWord? with
  | some w => s!"{lead} {w}"
  | none => lead

def padTo (width : Nat) (s : String) : String :=
  s ++ String.ofList (spaces (width - s.length))

/-- A base that has been set is shown with an empty standard value. -/
def flagNote (o : Options) (f : Flag) : String :=
  if f = .base ∧ o.baseText ≠ "" then " (default )" else ""

def flagLines (c : Command) (o : Options) (flags : List Flag) : String :=
  let sorted := flags.mergeSort fun f g => decide (f.name ≤ g.name)
  let width := (sorted.map fun f => (flagLead f).length).foldl max 0
  "\n".intercalate (sorted.map fun f =>
    padTo width (flagLead f) ++ "   " ++ flagPurpose c f ++ flagNote o f)

def flagGroups (c : Command) : List Flag × List Flag :=
  if c = root then (c.flags, []) else (.help :: c.ownFlags, sharedFlags)

def usageLines (c : Command) : String :=
  (if c.runs then
    let lead := match c.parent? with
      | some p => s!"\n  {p.path} "
      | none => "\n  "
    lead ++ c.usage ++ " [flags]"
  else "") ++
  (if c.children.isEmpty then "" else s!"\n  {c.path} [command]")

def childLines (c : Command) : String :=
  let sorted := c.children.mergeSort fun a b => decide (a.name ≤ b.name)
  String.join (sorted.map fun d => "\n  " ++ padTo 11 d.name ++ " " ++ d.summary)

def usageText (c : Command) (o : Options) : String :=
  let (own, shared) := c.flagGroups
  "Usage:" ++ c.usageLines ++
    (if c.children.isEmpty then "" else "\n\nAvailable Commands:" ++ c.childLines) ++
    "\n\nFlags:\n" ++ c.flagLines o own ++
    (if shared.isEmpty then "" else "\n\nGlobal Flags:\n" ++ c.flagLines o shared) ++
    (if c.children.isEmpty then ""
      else s!"\n\nUse \"{c.path} [command] --help\" for more information about a command.") ++
    "\n"

def helpText (c : Command) (o : Options) : String := c.description ++ "\n\n" ++ c.usageText o

end FlowPack.Command
