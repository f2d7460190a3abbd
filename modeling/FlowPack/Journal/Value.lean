namespace FlowPack.Journal

inductive Value where
  | text (s : String)
  | int (n : Int)
  | bool (b : Bool)
  | null
  deriving DecidableEq, Repr

namespace Value

def shown : Value → String
  | text s => s
  | int n => toString n
  | bool b => if b then "true" else "false"
  | null => "<nil>"

end Value

/-- Fields of a line, sorted by key, each key once. -/
abbrev Fields := List (String × Value)

namespace Fields

def set (key : String) (value : Value) : Fields → Fields
  | [] => [(key, value)]
  | (k, v) :: rest =>
    if key = k then (key, value) :: rest
    else if key < k then (key, value) :: (k, v) :: rest
    else (k, v) :: set key value rest

def setAll (fields : Fields) (more : List (String × Value)) : Fields :=
  more.foldl (fun fs (k, v) => fs.set k v) fields

def get? (fields : Fields) (key : String) : Option Value := fields.lookup key

end Fields

end FlowPack.Journal
