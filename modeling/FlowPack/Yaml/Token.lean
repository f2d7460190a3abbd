import FlowPack.Text

namespace FlowPack.Yaml

/-- A tag as written: a handle and what follows it. The handle is empty for a tag in full. -/
structure TagName where
  handle : List Char
  suffix : Text
  deriving DecidableEq, Repr

inductive TokenKind where
  | streamEnd
  | version (major minor : Nat)
  | tagHandle (handle : List Char) (expansion : Text)
  | documentStart
  | documentEnd
  | blockSequence
  | blockMapping
  | blockEnd
  | openList
  | closeList
  | openMap
  | closeMap
  | entry
  | comma
  | key
  | value
  | byName (name : List Char)
  | anchor (name : List Char)
  | tag (name : TagName)
  | scalar (isPlain : Bool) (text : List Char)
  deriving DecidableEq, Repr

structure Token where
  kind : TokenKind
  line : Nat
  deriving DecidableEq, Repr

end FlowPack.Yaml
