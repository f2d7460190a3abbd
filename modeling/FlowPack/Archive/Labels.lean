import FlowPack.Json.Parser
import FlowPack.Text.Numeral

namespace FlowPack.Archive

structure Labels where
  document : Json

namespace Labels

def gameKey : String := "tickflow"

def gateKey : String := "tickflowEndless"

inductive ParseError where
  | notJson
  | notArray (key : String)
  deriving DecidableEq, Repr

def ParseError.message : ParseError → String
  | notJson => "invalid name table: not valid JSON"
  | notArray key => s!"invalid name table: \"{key}\" must be an array"

def values (document : Json) (key : Text) : List Json :=
  match document with
  | .object members => members.filterMap fun (k, v) => if k = key then some v else none
  | _ => []

def checkKey (document : Json) (key : String) : Except ParseError Unit :=
  match values document (.ofString key) with
  | [] => .ok ()
  | .array _ :: _ => .ok ()
  | _ => .error (.notArray key)

def parse (t : Text) : Except ParseError Labels :=
  match Json.parse? t with
  | none => .error .notJson
  | some document => do
    checkKey document gameKey
    checkKey document gateKey
    return ⟨document⟩

/-- The value at a number: an item of an array, or the member of an object whose key spells
the number. -/
def itemAt? (index : Nat) : Json → Option Json
  | .array items => items[index]?
  | .object members => (values (.object members) (.ofString (toString index))).head?
  | _ => none

/-- The name of a record. All members with the table's key are searched in turn; the first
that has anything at the number decides, and only a non-empty string is a name. -/
def lookup? (labels : Labels) (gate : Bool) (index : Int) : Option Text :=
  if index < 0 then none
  else
    let key := Text.ofString (if gate then gateKey else gameKey)
    match (values labels.document key).findSome? (itemAt? index.toNat) with
    | some (.string []) => none
    | some (.string name) => some name
    | _ => none

def count (labels : Labels) (key : String) : Nat :=
  match values labels.document (.ofString key) with
  | .array items :: _ => items.length
  | _ => 0

def counts (labels : Labels) : Nat × Nat := (labels.count gameKey, labels.count gateKey)

def placeholder (gate : Bool) (index : Int) : String :=
  if gate then "gate_" ++ Numeral.hexInt 2 index else "game_" ++ Numeral.hexInt 3 index

def name (labels : Option Labels) (gate : Bool) (index : Int) : Text :=
  match labels.bind (·.lookup? gate index) with
  | some t => t
  | none => .ofString (placeholder gate index)

def fileName (labels : Option Labels) (gate : Bool) (index : Int) : Text :=
  name labels gate index ++ .ofString ".bin"

end Labels

end FlowPack.Archive
