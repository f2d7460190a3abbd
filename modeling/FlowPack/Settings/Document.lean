import FlowPack.Settings.Basic
import FlowPack.Yaml.Node.Grammar

namespace FlowPack.Settings

open Yaml (Document Node Scalar Tag)

inductive Problem where
  | repeatedKey (line : Nat) (key : List Char) (first : Nat)
  | repeatedField (line : Nat) (name : Text) (target : String)
  | mismatch (line : Nat) (tag : Tag) (shown : Text) (target : String)
  deriving DecidableEq, Repr

def Problem.text : Problem → Text
  | repeatedKey line key first =>
    let key := Text.quoted (key.map .char)
    .ofString s!"line {line}: mapping key {key} already defined at line {first}"
  | repeatedField line name target =>
    .ofString s!"line {line}: field " ++ name ++ .ofString s!" already set in type {target}"
  | mismatch line tag shown target =>
    .ofString s!"line {line}: cannot unmarshal " ++ tag ++ shown ++ .ofString s!" into {target}"

inductive Abort where
  | unreadable
  | syncMode (word : Text)
  deriving DecidableEq, Repr

/-- A result with the problems met on the way, oldest first. -/
abbrev Reading (α : Type) := StateT (List Problem) (Except Abort) α

def note (p : Problem) : Reading Unit := modify (· ++ [p])

def abort {α : Type} (a : Abort) : Reading α := throw a

/-- The spelling in a complaint. A long one is cut; collections have none. -/
def shownValue (n : Node) : Text :=
  if n.tag = Tag.seq ∨ n.tag = Tag.map then n.text.map .char
  else
    let data := Text.bytes (n.text.map .char)
    let mark := [Glyph.char (Char.ofNat 0x60)]
    let body := if 10 < data.length then Text.ofBytes (data.take 7) ++ .ofString "..."
      else n.text.map .char
    .ofString " " ++ mark ++ body ++ mark

def refuse (n : Node) (target : String) : Reading Unit :=
  note (.mismatch n.line n.tag (shownValue n) target)

/-- Keys that occur before, among the keys of a mapping. -/
def repeats : List Node → List Problem
  | [] => []
  | k :: rest =>
    (rest.filter fun j => j.kind = k.kind && j.text = k.text).map
      (fun j => Problem.repeatedKey j.line j.text k.line) ++ repeats rest

/-- What an alias stands for, and the aliases on the way; other nodes stand for themselves. -/
def follow (doc : Document) (seen : List Nat) (n : Node) : Reading (Node × List Nat) :=
  match n with
  | .byName _ _ number target =>
    if number ∈ seen then abort .unreadable
    else
      match doc.anchored.lookup target with
      | some m => return (m, number :: seen)
      | none => abort .unreadable
  | n => return (n, seen)

def meaning (tag : Tag) (text : List Char) : Reading Scalar :=
  match Scalar.read? tag text with
  | some s => return s
  | none => abort .unreadable

def refuseCollection (n : Node) (target : String) : Reading Unit :=
  match n with
  | .mapping _ _ pairs =>
    match repeats (pairs.map (·.1)) with
    | [] => refuse n target
    | ps => ps.forM note
  | n => refuse n target

def readInt (doc : Document) (seen : List Nat) (n : Node) : Reading (Option Int) := do
  let (n, _) ← follow doc seen n
  match n with
  | .scalar _ tag text =>
    let found : Option Int ← match ← meaning tag text with
      | .null => return none
      | .int v => pure (if v ≤ Yaml.maxInt then some v else none)
      | .float x => pure x.toInt?
      | _ => pure none
    if found.isNone then refuse n "int"
    return found
  | n =>
    refuseCollection n "int"
    return none

def readText (doc : Document) (seen : List Nat) (n : Node) : Reading (Option Text) := do
  let (n, _) ← follow doc seen n
  match n with
  | .scalar _ tag text =>
    match ← meaning tag text with
    | .null => return none
    | .binary t => return some t
    | _ => return some (text.map .char)
  | n =>
    refuseCollection n "string"
    return none

/-- A list of numbers. A null takes the list away; items that are null or do not fit drop out. -/
def readInts (doc : Document) (seen : List Nat) (old : Option (List Int)) (n : Node) :
    Reading (Option (List Int)) := do
  let (n, seen) ← follow doc seen n
  match n with
  | .scalar _ tag text =>
    match ← meaning tag text with
    | .null => return none
    | _ =>
      refuse n "[]int"
      return old
  | .sequence _ _ items =>
    let found ← items.mapM (readInt doc seen)
    return some (found.filterMap id)
  | n =>
    refuseCollection n "[]int"
    return old

def readSync (doc : Document) (seen : List Nat) (old : SyncMode) (n : Node) : Reading SyncMode := do
  let (n, _) ← follow doc seen n
  if n.tag = Tag.null then
    match n with
    | .scalar _ tag text =>
      let _ ← meaning tag text
      return old
    | n =>
      refuseCollection n "config.SyncMode"
      return old
  else
    let word := match n with
      | .scalar _ _ text => text.map Glyph.char
      | _ => []
    match SyncMode.parse? word with
    | some m => return m
    | none => abort (.syncMode word)

/-- How the fields of a record are read from a mapping. -/
structure Shape (α : Type) where
  title : String
  field? : Text → Option (List Nat → Node → α → Reading α)

/-- Read the entries of a mapping. `merged` holds the names that a mapping merging this one has
already; it grows by the names met here. -/
def readFields {α : Type} (doc : Document) (shape : Shape α) (seen : List Nat) :
    List (Node × Node) → List Text → Option (List Text) → α →
    Reading (α × Option (List Text))
  | [], _, merged, a => return (a, merged)
  | (key, value) :: rest, done, merged, a => do
    if key.isMerge then readFields doc shape seen rest done merged a
    else
      match ← readText doc seen key with
      | none => readFields doc shape seen rest done merged a
      | some name =>
        if (merged.getD []).contains name then readFields doc shape seen rest done merged a
        else
          let merged := merged.map (name :: ·)
          match shape.field? name with
          | none => readFields doc shape seen rest done merged a
          | some read =>
            if done.contains name then
              note (.repeatedField key.line name shape.title)
              readFields doc shape seen rest done merged a
            else
              let a ← read seen value a
              readFields doc shape seen rest (name :: done) merged a

def mergeOf? (pairs : List (Node × Node)) : Option Node :=
  ((pairs.filter fun p => p.1.isMerge).getLast?).map (·.2)

def nameOf? (doc : Document) (key : Node) : Option Text :=
  let spelled : Node → Option Text
    | .scalar _ tag text =>
      match Scalar.read? tag text with
      | some (.str t) => some t
      | some (.binary t) => some t
      | _ => none
    | _ => none
  match key with
  | .byName _ _ _ target => (doc.anchored.lookup target).bind spelled
  | key => spelled key

def ownNames (doc : Document) (pairs : List (Node × Node)) : List Text :=
  pairs.filterMap fun p => nameOf? doc p.1

def mergeSources : Node → List Node
  | .sequence _ _ items => items
  | n => [n]

def isMapping (doc : Document) : Node → Bool
  | .mapping .. => true
  | .byName _ _ _ target => (doc.anchored.lookup target).any (·.kind = .mapping)
  | _ => false

mutual

/-- Read a record. `fuel` bounds the depth of merges. -/
def readRecord {α : Type} (doc : Document) (shape : Shape α) :
    Nat → List Nat → Option (List Text) → Node → α → Reading (α × Option (List Text))
  | 0, _, _, _, _ => abort .unreadable
  | fuel + 1, seen, merged, n, a => do
    let (n, seen) ← follow doc seen n
    match n with
    | .scalar _ tag text =>
      match ← meaning tag text with
      | .null => return (a, merged)
      | _ =>
        refuse n shape.title
        return (a, merged)
    | .mapping _ _ pairs =>
      match repeats (pairs.map (·.1)) with
      | p :: ps =>
        (p :: ps).forM note
        return (a, merged)
      | [] =>
        let (a, merged) ← readFields doc shape seen pairs [] merged a
        match mergeOf? pairs with
        | none => return (a, merged)
        | some m =>
          let names := merged.getD (ownNames doc pairs)
          let (a, names) ← readMerged doc shape fuel seen names (mergeSources m) a
          return (a, merged.map fun _ => names)
    | n =>
      refuse n shape.title
      return (a, merged)

def readMerged {α : Type} (doc : Document) (shape : Shape α) :
    Nat → List Nat → List Text → List Node → α → Reading (α × List Text)
  | 0, _, _, _, _ => abort .unreadable
  | _, _, names, [], a => return (a, names)
  | fuel + 1, seen, names, n :: rest, a => do
    if !isMapping doc n then abort .unreadable
    let (a, merged) ← readRecord doc shape fuel seen (some names) n a
    readMerged doc shape fuel seen (merged.getD names) rest a

end

def annotationShape (doc : Document) : Shape Settings where
  title := "config.AnnotationConfig"
  field? name :=
    if name = .ofString "pointer_tags" then
      some fun seen n s => return { s with pointerTags := ← readInts doc seen s.pointerTags n }
    else if name = .ofString "string_tags" then
      some fun seen n s => return { s with stringTags := ← readInts doc seen s.stringTags n }
    else none

def outputShape (doc : Document) : Shape Settings where
  title := "config.OutputConfig"
  field? name :=
    if name = .ofString "sync" then
      some fun seen n s => return { s with sync := ← readSync doc seen s.sync n }
    else none

def archiveShape (doc : Document) : Shape Settings where
  title := "config.ArchiveConfig"
  field? name :=
    if name = .ofString "variant" then
      some fun seen n s => return { s with variant := (← readText doc seen n).getD s.variant }
    else if name = .ofString "base_offset" then
      some fun seen n s => return { s with baseOffset := (← readText doc seen n).getD s.baseOffset }
    else if name = .ofString "names_file" then
      some fun seen n s => return { s with namesFile := (← readText doc seen n).getD s.namesFile }
    else none

def sectionField (doc : Document) (shape : Shape Settings) (fuel : Nat) :
    List Nat → Node → Settings → Reading Settings :=
  fun seen n s => return (← readRecord doc shape fuel seen none n s).1

def settingsShape (doc : Document) (fuel : Nat) : Shape Settings where
  title := "config.Config"
  field? name :=
    if name = .ofString "version" then
      some fun seen n s => return { s with version := (← readInt doc seen n).getD s.version }
    else if name = .ofString "log_level" then
      some fun seen n s => return { s with logLevel := (← readText doc seen n).getD s.logLevel }
    else if name = .ofString "annotation" then some (sectionField doc (annotationShape doc) fuel)
    else if name = .ofString "output" then some (sectionField doc (outputShape doc) fuel)
    else if name = .ofString "archive" then some (sectionField doc (archiveShape doc) fuel)
    else none

inductive DocumentError where
  | abort (a : Abort)
  | problems (ps : List Problem)
  deriving DecidableEq, Repr

def ofDocument (fuel : Nat) (doc : Document) (s : Settings) : Except DocumentError Settings :=
  match (readRecord doc (settingsShape doc fuel) fuel [] none doc.root s).run [] with
  | .error a => .error (.abort a)
  | .ok ((s, _), []) => .ok s
  | .ok (_, ps) => .error (.problems ps)

def parse (data : Bytes) : Except DocumentError Settings :=
  match (Yaml.chars? data).bind Document.parse? with
  | none => .error (.abort .unreadable)
  | some none => .ok {}
  | some (some doc) => ofDocument (data.length + 2) doc {}

end FlowPack.Settings
