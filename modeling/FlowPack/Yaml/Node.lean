import FlowPack.Yaml.Scalar

namespace FlowPack.Yaml

inductive Node where
  | scalar (line : Nat) (tag : Tag) (text : List Char)
  | sequence (line : Nat) (tag : Tag) (items : List Node)
  | mapping (line : Nat) (tag : Tag) (pairs : List (Node × Node))
  | byName (line : Nat) (name : List Char) (number target : Nat)

inductive NodeKind where
  | scalar
  | sequence
  | mapping
  | byName
  deriving DecidableEq, Repr

namespace Node

def kind : Node → NodeKind
  | scalar .. => .scalar
  | sequence .. => .sequence
  | mapping .. => .mapping
  | byName .. => .byName

def line : Node → Nat
  | scalar l _ _ => l
  | sequence l _ _ => l
  | mapping l _ _ => l
  | byName l _ _ _ => l

def text : Node → List Char
  | scalar _ _ t => t
  | byName _ n _ _ => n
  | _ => []

def tag : Node → Tag
  | scalar _ t _ => t
  | sequence _ t _ => t
  | mapping _ t _ => t
  | byName .. => []

/-- A key that asks for the entries of another mapping. -/
def isMerge : Node → Bool
  | scalar _ tag text => tag = .merge && text = ['<', '<']
  | _ => false

end Node

structure Document where
  root : Node
  anchored : List (Nat × Node)

end FlowPack.Yaml
