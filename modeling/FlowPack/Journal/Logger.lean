import FlowPack.Journal.Level
import FlowPack.Journal.Template

namespace FlowPack.Journal

structure Entry where
  level : Level
  fields : Fields
  message : String
  deriving DecidableEq, Repr

namespace Entry

def plain (level : Level) (message : String) : Entry := ⟨level, [], message⟩

/-- The line seen through a logger with the given fields; the line's own fields win. -/
def within (outer : Fields) (e : Entry) : Entry :=
  { e with fields := outer.setAll e.fields }

def render (e : Entry) : String :=
  "[" ++ e.level.name ++ "]" ++
    String.join (e.fields.map fun (k, v) => " " ++ k ++ "=" ++ v.shown) ++ " " ++ e.message

end Entry

def visible (least : Level) (entries : List Entry) : List Entry :=
  entries.filter (·.level.reaches least)

/-- The line written before the program gives up; every threshold lets it pass. -/
def fatal (fields : Fields) (template : String) (args : List Value) : Entry :=
  ⟨.fatal, fields, Template.fill template args⟩

def fatalExit : Nat := 1

/-- Loggers derived from one another, numbered in the order of their making. -/
structure Family where
  level : Level
  loggers : List Fields
  deriving DecidableEq, Repr

namespace Family

def start (level : Level) (fields : List (String × Value)) : Family :=
  ⟨level, [Fields.setAll [] fields]⟩

def fieldsOf (f : Family) (i : Nat) : Fields := f.loggers[i]?.getD []

def derive (f : Family) (i : Nat) (fields : List (String × Value)) : Family :=
  { f with loggers := f.loggers ++ [(f.fieldsOf i).setAll fields] }

def setLevel (f : Family) (level : Level) : Family := { f with level }

def log? (f : Family) (i : Nat) (level : Level) (template : String) (args : List Value) :
    Option Entry :=
  if level.reaches f.level then some ⟨level, f.fieldsOf i, Template.fill template args⟩ else none

end Family

end FlowPack.Journal
