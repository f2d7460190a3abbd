import FlowPack.Yaml.Node
import FlowPack.Yaml.Token.Lexer

namespace FlowPack.Yaml

/-- What is known about anchors while a document is read. -/
structure Anchors where
  next : Nat := 0
  names : List (List Char × Nat) := []
  nodes : List (Nat × Node) := []

namespace Grammar

abbrev Parsed (α : Type) := α × List Token × Anchors

abbrev Handles := List (List Char × Text)

/-- Anchor and tag of a node, and the line of the first of them. -/
structure Properties where
  anchor : Option (List Char) := none
  tag : Option TagName := none
  line : Option Nat := none
  deriving DecidableEq, Repr

def properties : List Token → Properties × List Token
  | ⟨.anchor a, l⟩ :: ⟨.tag t, _⟩ :: rest => (⟨some a, some t, some l⟩, rest)
  | ⟨.tag t, l⟩ :: ⟨.anchor a, _⟩ :: rest => (⟨some a, some t, some l⟩, rest)
  | ⟨.anchor a, l⟩ :: rest => ({ anchor := some a, line := some l }, rest)
  | ⟨.tag t, l⟩ :: rest => ({ tag := some t, line := some l }, rest)
  | ts => ({}, ts)

def fullTag? (handles : Handles) : Option TagName → Option Text
  | none => some []
  | some t =>
    if t.handle = [] then some t.suffix
    else
      match handles.lookup t.handle with
      | some stem => some (stem ++ t.suffix)
      | none => none

/-- A tag as it stands on a node: none and a lone exclamation mark leave the default. -/
def tagOr (default : Tag) (full : Text) : Tag :=
  if full = [] ∨ full = [.char '!'] then default else Tag.short full

def defaultTag (isPlain : Bool) (text : List Char) : Tag :=
  if !isPlain then .str
  else if text = ['<', '<'] then .merge
  else (Scalar.ofPlain true text).tag

def scalarNode (line : Nat) (full : Text) (isPlain : Bool) (text : List Char) : Node :=
  .scalar (line + 1) (tagOr (defaultTag isPlain text) full) text

def emptyNode (line : Nat) : Node := scalarNode line [] true []

def lineOf : List Token → Nat
  | t :: _ => t.line
  | [] => 0

def nextKind? : List Token → Option TokenKind
  | t :: _ => some t.kind
  | [] => none

def nextIn (kinds : List TokenKind) (ts : List Token) : Bool :=
  match nextKind? ts with
  | some k => kinds.contains k
  | none => false

def withAnchor (name : Option (List Char)) (a : Anchors) : Option Nat × Anchors :=
  match name with
  | none => (none, a)
  | some n => (some a.next, { a with next := a.next + 1, names := (n, a.next) :: a.names })

def record (number : Option Nat) (n : Node) (a : Anchors) : Anchors :=
  match number with
  | none => a
  | some k => { a with nodes := (k, n) :: a.nodes }

mutual

/-- A node. `block` allows block collections, `flush` sequences that are not indented. -/
def node (handles : Handles) : Nat → Bool → Bool → List Token → Anchors → Option (Parsed Node)
  | 0, _, _, _, _ => none
  | n + 1, block, flush, ts, a =>
    match ts with
    | ⟨.byName name, line⟩ :: rest =>
      match a.names.lookup name with
      | none => none
      | some target =>
        some (.byName (line + 1) name a.next target, rest, { a with next := a.next + 1 })
    | _ =>
      let (props, ts) := properties ts
      let line := props.line.getD (lineOf ts)
      let (number, a) := withAnchor props.anchor a
      match fullTag? handles props.tag with
      | none => none
      | some full =>
        let listOf : Option (Parsed (List Node)) → Option (Parsed Node) := fun r =>
          r.map fun (items, ts, a) =>
            let node := Node.sequence (line + 1) (tagOr .seq full) items
            (node, ts, record number node a)
        let mapOf : Option (Parsed (List (Node × Node))) → Option (Parsed Node) := fun r =>
          r.map fun (pairs, ts, a) =>
            let node := Node.mapping (line + 1) (tagOr .map full) pairs
            (node, ts, record number node a)
        let single (isPlain : Bool) (text : List Char) (ts : List Token) : Option (Parsed Node) :=
          let node := scalarNode line full isPlain text
          some (node, ts, record number node a)
        match ts with
        | [] => none
        | ⟨kind, _⟩ :: rest =>
          if flush && kind == .entry then listOf (flushEntries handles n ts a)
          else
            match kind with
            | .scalar isPlain text => single isPlain text rest
            | .openList => listOf (listItems handles n true rest a)
            | .openMap => mapOf (mapEntries handles n true rest a)
            | .blockSequence =>
              if block then listOf (blockEntries handles n rest a)
              else if props.line.isSome then single true [] ts else none
            | .blockMapping =>
              if block then mapOf (blockPairs handles n rest a)
              else if props.line.isSome then single true [] ts else none
            | _ => if props.line.isSome then single true [] ts else none

def blockEntries (handles : Handles) : Nat → List Token → Anchors → Option (Parsed (List Node))
  | 0, _, _ => none
  | n + 1, ts, a =>
    match ts with
    | ⟨.entry, line⟩ :: rest => do
      let (item, ts, a) ←
        if nextIn [.entry, .blockEnd] rest then some (emptyNode line, rest, a)
        else node handles n true false rest a
      let (items, ts, a) ← blockEntries handles n ts a
      return (item :: items, ts, a)
    | ⟨.blockEnd, _⟩ :: rest => some ([], rest, a)
    | _ => none

/-- The entries of a sequence that stands as deep as the key before it. -/
def flushEntries (handles : Handles) : Nat → List Token → Anchors → Option (Parsed (List Node))
  | 0, _, _ => none
  | n + 1, ts, a =>
    match ts with
    | ⟨.entry, line⟩ :: rest => do
      let (item, ts, a) ←
        if nextIn [.entry, .key, .value, .blockEnd] rest then some (emptyNode line, rest, a)
        else node handles n true false rest a
      let (items, ts, a) ← flushEntries handles n ts a
      return (item :: items, ts, a)
    | _ => some ([], ts, a)

def blockPairs (handles : Handles) :
    Nat → List Token → Anchors → Option (Parsed (List (Node × Node)))
  | 0, _, _ => none
  | n + 1, ts, a =>
    match ts with
    | ⟨.key, line⟩ :: rest => do
      let bare := [TokenKind.key, .value, .blockEnd]
      let (k, ts, a) ←
        if nextIn bare rest then some (emptyNode line, rest, a)
        else node handles n true true rest a
      let (v, ts, a) ← match ts with
        | ⟨.value, line⟩ :: rest =>
          if nextIn bare rest then some (emptyNode line, rest, a)
          else node handles n true true rest a
        | _ => some (emptyNode (lineOf ts), ts, a)
      let (pairs, ts, a) ← blockPairs handles n ts a
      return ((k, v) :: pairs, ts, a)
    | ⟨.blockEnd, _⟩ :: rest => some ([], rest, a)
    | _ => none

def listItems (handles : Handles) : Nat → Bool → List Token → Anchors → Option (Parsed (List Node))
  | 0, _, _, _ => none
  | n + 1, first, ts, a =>
    if nextIn [.closeList] ts then some ([], ts.drop 1, a)
    else do
      let ts ← if first then some ts else if nextIn [.comma] ts then some (ts.drop 1) else none
      match ts with
      | ⟨.closeList, _⟩ :: rest => return ([], rest, a)
      | ⟨.key, line⟩ :: rest =>
        let (pair, ts, a) ← listPair handles n rest a
        let (items, ts, a) ← listItems handles n false ts a
        return (.mapping (line + 1) .map [pair] :: items, ts, a)
      | _ =>
        let (item, ts, a) ← node handles n false false ts a
        let (items, ts, a) ← listItems handles n false ts a
        return (item :: items, ts, a)

def listPair (handles : Handles) : Nat → List Token → Anchors → Option (Parsed (Node × Node))
  | 0, _, _ => none
  | n + 1, ts, a => do
    let (k, ts, a) ←
      if nextIn [.value, .comma, .closeList] ts then some (emptyNode (lineOf ts), ts.drop 1, a)
      else node handles n false false ts a
    let (v, ts, a) ←
      if nextIn [.value] ts then
        let ts := ts.drop 1
        if nextIn [.comma, .closeList] ts then some (emptyNode (lineOf ts), ts, a)
        else node handles n false false ts a
      else some (emptyNode (lineOf ts), ts, a)
    return ((k, v), ts, a)

def mapEntries (handles : Handles) : Nat → Bool → List Token → Anchors →
    Option (Parsed (List (Node × Node)))
  | 0, _, _, _ => none
  | n + 1, first, ts, a =>
    if nextIn [.closeMap] ts then some ([], ts.drop 1, a)
    else do
      let ts ← if first then some ts else if nextIn [.comma] ts then some (ts.drop 1) else none
      match ts with
      | ⟨.closeMap, _⟩ :: rest => return ([], rest, a)
      | ⟨.key, _⟩ :: rest =>
        let (k, ts, a) ←
          if nextIn [.value, .comma, .closeMap] rest then some (emptyNode (lineOf rest), rest, a)
          else node handles n false false rest a
        let (v, ts, a) ←
          if nextIn [.value] ts then
            let ts := ts.drop 1
            if nextIn [.comma, .closeMap] ts then some (emptyNode (lineOf ts), ts, a)
            else node handles n false false ts a
          else some (emptyNode (lineOf ts), ts, a)
        let (pairs, ts, a) ← mapEntries handles n false ts a
        return ((k, v) :: pairs, ts, a)
      | _ =>
        let (k, ts, a) ← node handles n false false ts a
        let v := emptyNode (lineOf ts)
        let (pairs, ts, a) ← mapEntries handles n false ts a
        return ((k, v) :: pairs, ts, a)

end

def standardHandles : Handles := [(['!'], [.char '!']), (['!', '!'], Tag.standardStem)]

def directives (versioned : Bool) (handles : Handles) : List Token → Option (Handles × List Token)
  | ⟨.version major minor, _⟩ :: rest =>
    if versioned || major != 1 || minor != 1 then none else directives true handles rest
  | ⟨.tagHandle h stem, _⟩ :: rest =>
    if (handles.lookup h).isSome then none else directives versioned (handles ++ [(h, stem)]) rest
  | ts => some (handles ++ standardHandles, ts)

def isBoundary : TokenKind → Bool
  | .version .. => true
  | .tagHandle .. => true
  | .documentStart => true
  | .documentEnd => true
  | .streamEnd => true
  | _ => false

def root (ts : List Token) : Option (Option (Parsed Node)) :=
  let enough := 2 * ts.length + 2
  match nextKind? ts with
  | none => none
  | some .streamEnd => some none
  | some kind =>
    if isBoundary kind && kind != .documentEnd then
      match directives false [] ts with
      | some (handles, ⟨.documentStart, _⟩ :: rest) =>
        match nextKind? rest with
        | none => none
        | some k =>
          if isBoundary k then some (some (emptyNode (lineOf rest), rest, {}))
          else (node handles enough true false rest {}).map some
      | _ => none
    else (node standardHandles enough true false ts {}).map some

end Grammar

/-- Read the first document. The outer `none` stands for text that cannot be read, the inner
one for text without a document. -/
def Document.parse? (cs : List Char) : Option (Option Document) :=
  let stream := TokenStream.read cs
  match Grammar.root stream.tokens with
  | none => none
  | some none => some none
  | some (some (root, rest, anchors)) =>
    if stream.complete || 3 ≤ rest.length then
      some (some { root, anchored := anchors.nodes })
    else none

end FlowPack.Yaml
