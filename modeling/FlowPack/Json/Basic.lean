import FlowPack.Text

namespace FlowPack

inductive Json where
  | null
  | bool (b : Bool)
  | number (literal : String)
  | string (t : Text)
  | array (items : List Json)
  | object (members : List (Text × Json))

namespace Json

def nat (n : Nat) : Json := .number (toString n)

def int (n : Int) : Json := .number (toString n)

def str (s : String) : Json := .string (Text.ofString s)

def obj (members : List (String × Json)) : Json :=
  .object (members.map fun (k, v) => (Text.ofString k, v))

end Json

end FlowPack
