import FlowPack.Script.Basic
import FlowPack.Text.Numeral

namespace FlowPack.Script

inductive Part where
  | headerIndex
  | headerStart
  | headerAssets
  | instruction
  | recordCount
  | record
  | markedOpcode
  | argument
  deriving DecidableEq, Repr

def Part.text : Part → String
  | headerIndex => "header index"
  | headerStart => "header start offset"
  | headerAssets => "header assets offset"
  | instruction => "instruction"
  | recordCount => "annotation count"
  | record => "annotation record"
  | markedOpcode => "opcode after annotation block"
  | argument => "instruction argument"

inductive DecodeError where
  | truncated (offset : Nat) (part : Part)
  | badIndex (offset : Nat) (index : UInt32) (argCount : Nat)
  | unreadable (offset : Nat) (part : Part) (fault : Fault)
  | unreadableStrings (offset : Nat) (fault : Fault)
  deriving DecidableEq, Repr

/-- A record whose tag is in neither set. -/
structure StrayTag where
  offset : Nat
  tag : UInt8
  index : UInt32
  deriving DecidableEq, Repr

structure Mark where
  offset : Nat
  index : UInt32
  kind : PointerKind
  deriving DecidableEq, Repr

structure Cursor where
  offset : Nat
  rest : Bytes
  fault : Option Fault
  deriving DecidableEq, Repr

namespace Cursor

def ofSource (s : Source) : Cursor := ⟨0, s.data, s.fault⟩

def next? (c : Cursor) : Option (UInt32 × Cursor) :=
  (Word.take? c.rest).map fun (w, rest) => (w, ⟨c.offset + 4, rest, c.fault⟩)

def drained (c : Cursor) : Cursor := ⟨c.offset + c.rest.length, [], c.fault⟩

/-- Why no further word can be read. A fault that tells of missing data is taken for the end. -/
def shortfall (c : Cursor) (part : Part) : DecodeError :=
  match c.fault with
  | none => .truncated c.offset part
  | some f => if f.saysShort then .truncated c.offset part else .unreadable c.offset part f

theorem rest_length_of_next? {c d : Cursor} {w : UInt32} (h : c.next? = some (w, d)) :
    c.rest.length = d.rest.length + 4 := by
  unfold next? at h
  obtain ⟨⟨v, rest⟩, hw, he⟩ := Option.map_eq_some_iff.1 h
  obtain ⟨rfl, rfl⟩ := Prod.mk.injEq .. ▸ he
  exact Word.length_of_take? hw

end Cursor

/-- What a reading step did: the records it could not interpret, where it stopped and what it
found. -/
structure Step (α : Type) where
  strays : List StrayTag
  cursor : Cursor
  result : Except DecodeError α

namespace Step

def done {α : Type} (c : Cursor) (a : α) : Step α := ⟨[], c, .ok a⟩

def stop {α : Type} (c : Cursor) (part : Part) : Step α :=
  ⟨[], c.drained, .error (c.shortfall part)⟩

def andThen {α β : Type} (s : Step α) (f : α → Cursor → Step β) : Step β :=
  match s.result with
  | .error e => ⟨s.strays, s.cursor, .error e⟩
  | .ok a =>
    let t := f a s.cursor
    ⟨s.strays ++ t.strays, t.cursor, t.result⟩

end Step

def readHeader (c : Cursor) : Header × Cursor × Option DecodeError :=
  match c.next? with
  | none => ({}, c.drained, some (c.shortfall .headerIndex))
  | some (index, c₁) =>
    match c₁.next? with
    | none => (⟨index, 0, 0⟩, c₁.drained, some (c₁.shortfall .headerStart))
    | some (start, c₂) =>
      match c₂.next? with
      | none => (⟨index, start, 0⟩, c₂.drained, some (c₂.shortfall .headerAssets))
      | some (assets, c₃) => (⟨index, start, assets⟩, c₃, none)

def readRecords (tags : TagSets) : Nat → Cursor → Step (List Mark)
  | 0, c => .done c []
  | n + 1, c =>
    match c.next? with
    | none => .stop c .record
    | some (r, c₁) =>
      let later := readRecords tags n c₁
      let tag := r.toUInt8
      let index := r >>> 8
      match tags.classify tag with
      | some kind => { later with result := later.result.map (⟨c.offset, index, kind⟩ :: ·) }
      | none => { later with strays := ⟨c.offset, tag, index⟩ :: later.strays }

def readArgs : Nat → Cursor → Step (List UInt32)
  | 0, c => .done c []
  | n + 1, c =>
    match c.next? with
    | none => .stop c .argument
    | some (v, c₁) =>
      let later := readArgs n c₁
      { later with result := later.result.map (v :: ·) }

def readBlock (tags : TagSets) (c : Cursor) : Step (Opcode × List Mark) :=
  match c.next? with
  | none => .stop c .recordCount
  | some (count, c₁) =>
    (readRecords tags count.toNat c₁).andThen fun marks c₂ =>
      match c₂.next? with
      | none => .stop c₂ .markedOpcode
      | some (w, c₃) => .done c₃ (⟨w⟩, marks)

/-- How the records classify an argument; a string record wins over pointer records. -/
def kindAt (marks : List Mark) (i : Nat) : Option PointerKind :=
  let here := marks.filter fun m => m.index.toNat = i
  if here.any fun m => m.kind = .stringRef then some .stringRef
  else here.head?.map (·.kind)

def badMark? (marks : List Mark) (argCount : Nat) : Option Mark :=
  marks.find? fun m => argCount ≤ m.index.toNat

/-- Instructions read so far, with their encoding and pointers. -/
structure Body where
  flow : Bytes := []
  instructions : List Instruction := []
  pointers : List Pointer := []
  annotated : Nat := 0

def Body.push (here : Nat) (op : Opcode) (marks : List Mark) (args : List UInt32) (b : Body) :
    Body :=
  let indices := List.range op.argCount
  { flow := Word.bytes op.word ++ args.flatMap Word.bytes ++ b.flow
    instructions :=
      { offset := UInt32.ofNat here
        opcode := op
        args
        kinds := indices.map fun i =>
          match kindAt marks i with
          | some k => k.argKind
          | none => .value } :: b.instructions
    pointers :=
      (indices.filterMap fun i =>
        (kindAt marks i).map fun k => ⟨UInt32.ofNat (here + 4 * (i + 1)), k⟩) ++ b.pointers
    annotated := indices.countP (fun i => (kindAt marks i).isSome) + b.annotated }

/-- Check the records against the opcode, then read the arguments. -/
def readOperands (op : Opcode) (marks : List Mark) (c : Cursor) : Step (List UInt32) :=
  match badMark? marks op.argCount with
  | some m => ⟨[], c, .error (.badIndex m.offset m.index op.argCount)⟩
  | none => readArgs op.argCount c

def readItem (tags : TagSets) (w : UInt32) (c : Cursor) :
    Step (Opcode × List Mark × List UInt32) :=
  let lead : Step (Opcode × List Mark) :=
    if w = blockMark then readBlock tags c else .done c (⟨w⟩, [])
  lead.andThen fun (op, marks) c₁ =>
    (readOperands op marks c₁).andThen fun args c₂ => .done c₂ (op, marks, args)

theorem andThen_cursor_le {α β : Type} {s : Step α} {f : α → Cursor → Step β} {n : Nat}
    (hs : s.cursor.rest.length ≤ n)
    (hf : ∀ a c, c.rest.length ≤ n → (f a c).cursor.rest.length ≤ n) :
    (s.andThen f).cursor.rest.length ≤ n := by
  unfold Step.andThen
  split
  · exact hs
  · exact hf _ _ hs

theorem readRecords_cursor_le (tags : TagSets) (n : Nat) (c : Cursor) :
    (readRecords tags n c).cursor.rest.length ≤ c.rest.length := by
  induction n generalizing c with
  | zero => exact Nat.le_refl _
  | succ n ih =>
    rw [readRecords]
    split
    · exact Nat.zero_le _
    · next r c₁ h =>
      have hl := Cursor.rest_length_of_next? h
      have := ih c₁
      dsimp only
      split <;> dsimp only <;> omega

theorem readArgs_cursor_le (n : Nat) (c : Cursor) :
    (readArgs n c).cursor.rest.length ≤ c.rest.length := by
  induction n generalizing c with
  | zero => exact Nat.le_refl _
  | succ n ih =>
    rw [readArgs]
    split
    · exact Nat.zero_le _
    · next r c₁ h =>
      have hl := Cursor.rest_length_of_next? h
      have := ih c₁
      dsimp only
      omega

theorem readBlock_cursor_le (tags : TagSets) (c : Cursor) :
    (readBlock tags c).cursor.rest.length ≤ c.rest.length := by
  unfold readBlock
  split
  · exact Nat.zero_le _
  · next count c₁ h =>
    have hl := Cursor.rest_length_of_next? h
    apply andThen_cursor_le
    · have := readRecords_cursor_le tags count.toNat c₁
      omega
    · intro marks c₂ h₂
      split
      · exact Nat.zero_le _
      · next w c₃ h₃ =>
        have := Cursor.rest_length_of_next? h₃
        simp only [Step.done]
        omega

theorem readOperands_cursor_le (op : Opcode) (marks : List Mark) (c : Cursor) :
    (readOperands op marks c).cursor.rest.length ≤ c.rest.length := by
  unfold readOperands
  split
  · exact Nat.le_refl _
  · exact readArgs_cursor_le _ _

theorem readItem_cursor_le (tags : TagSets) (w : UInt32) (c : Cursor) :
    (readItem tags w c).cursor.rest.length ≤ c.rest.length := by
  unfold readItem
  apply andThen_cursor_le
  · split
    · exact readBlock_cursor_le tags c
    · exact Nat.le_refl _
  · rintro ⟨op, marks⟩ c₁ h₁
    apply andThen_cursor_le
    · exact Nat.le_trans (readOperands_cursor_le op marks c₁) h₁
    · intro args c₂ h₂
      exact h₂

def readBody (tags : TagSets) (c : Cursor) (here : Nat) : Step Body :=
  match _h : c.next? with
  | none => .stop c .instruction
  | some (w, c₁) =>
    if w = endMark then .done c₁ {}
    else
      let item := readItem tags w c₁
      match item.result with
      | .error e => ⟨item.strays, item.cursor, .error e⟩
      | .ok (op, marks, args) =>
        let later := readBody tags item.cursor (here + 4 * (1 + op.argCount))
        ⟨item.strays ++ later.strays, later.cursor,
          later.result.map (Body.push here op marks args)⟩
termination_by c.rest.length
decreasing_by
  have hl := Cursor.rest_length_of_next? _h
  have := readItem_cursor_le tags w c₁
  omega

def readStrings (header : Header) (body : Body) (c : Cursor) : Step Program :=
  match c.fault with
  | some f => ⟨[], c, .error (.unreadableStrings c.offset f)⟩
  | none =>
    .done c.drained
      { header
        flow := body.flow
        instructions := body.instructions
        pointers := body.pointers
        strings := c.rest
        annotated := body.annotated }

def decode (tags : TagSets) (source : Source) : Step Program :=
  match readHeader (.ofSource source) with
  | (_, c, some e) => ⟨[], c, .error e⟩
  | (header, c, none) => (readBody tags c 0).andThen (readStrings header)

def DecodeError.message : DecodeError → String
  | .truncated offset part =>
    s!"framing error at byte 0x{Numeral.hex 1 offset} ({part.text}): " ++
      "unexpected end of tickflow data"
  | .badIndex offset index argCount =>
    s!"framing error at byte 0x{Numeral.hex 1 offset} ({Part.record.text}): " ++
      s!"annotation index out of range: argument {index} of {argCount}"
  | .unreadable offset part fault =>
    s!"failed to read {part.text} at byte 0x{Numeral.hex 1 offset}: {fault.text}"
  | .unreadableStrings offset fault =>
    s!"failed to read string data at byte 0x{Numeral.hex 1 offset}: {fault.text}"

end FlowPack.Script
