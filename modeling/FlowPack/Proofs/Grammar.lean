import FlowPack.Proofs.Words
import FlowPack.Script.Decoder

namespace FlowPack.Script

inductive Item where
  | bare (op : Opcode) (args : List UInt32)
  | marked (records : List UInt32) (op : Opcode) (args : List UInt32)
  deriving DecidableEq, Repr

namespace Item

def opcode : Item → Opcode
  | bare op _ => op
  | marked _ op _ => op

def args : Item → List UInt32
  | bare _ args => args
  | marked _ _ args => args

def records : Item → List UInt32
  | bare .. => []
  | marked records _ _ => records

def lead : Item → UInt32
  | bare op _ => op.word
  | marked .. => blockMark

def tail : Item → List UInt32
  | bare _ args => args
  | marked records op args => UInt32.ofNat records.length :: (records ++ op.word :: args)

def words (i : Item) : List UInt32 := i.lead :: i.tail

def code (i : Item) : List UInt32 := i.opcode.word :: i.args

/-- The opcode counts the arguments. Only an opcode behind a block may look like a mark. -/
def Framed : Item → Prop
  | bare op args => op.word ≠ blockMark ∧ op.word ≠ endMark ∧ args.length = op.argCount
  | marked records op args => records.length < UInt32.size ∧ args.length = op.argCount

/-- Every recognised record names an argument of the instruction. -/
def Indexed (tags : TagSets) (i : Item) : Prop :=
  ∀ r ∈ i.records, (tags.classify r.toUInt8).isSome → (r >>> 8).toNat < i.opcode.argCount

def Valid (tags : TagSets) (i : Item) : Prop := i.Framed ∧ i.Indexed tags

instance : (i : Item) → Decidable i.Framed
  | bare .. => inferInstanceAs (Decidable (_ ∧ _ ∧ _))
  | marked .. => inferInstanceAs (Decidable (_ ∧ _))

instance (tags : TagSets) (i : Item) : Decidable (i.Indexed tags) :=
  List.decidableBAll (fun r : UInt32 =>
    (tags.classify r.toUInt8).isSome → (r >>> 8).toNat < i.opcode.argCount) i.records

instance (tags : TagSets) (i : Item) : Decidable (i.Valid tags) :=
  inferInstanceAs (Decidable (_ ∧ _))

theorem length_args {i : Item} (h : i.Framed) : i.args.length = i.opcode.argCount := by
  cases i with
  | bare op args => exact h.2.2
  | marked records op args => exact h.2

theorem lead_ne_endMark {i : Item} (h : i.Framed) : i.lead ≠ endMark := by
  cases i with
  | bare op args => exact h.2.1
  | marked records op args =>
    change blockMark ≠ endMark
    decide

end Item

structure Listing where
  header : Header
  items : List Item
  strings : Bytes
  deriving DecidableEq, Repr

namespace Listing

def bytes (l : Listing) : Bytes :=
  [l.header.index, l.header.start, l.header.assets].flatMap Word.bytes ++
    (l.items.flatMap Item.words).flatMap Word.bytes ++ Word.bytes endMark ++ l.strings

def Valid (tags : TagSets) (l : Listing) : Prop := ∀ i ∈ l.items, i.Valid tags

instance (tags : TagSets) (l : Listing) : Decidable (l.Valid tags) :=
  List.decidableBAll (Item.Valid tags) l.items

end Listing

/-- How records classify an argument; a string record wins over pointer records. -/
def recordKind (tags : TagSets) (records : List UInt32) (n : Nat) : Option PointerKind :=
  if records.any fun r => (r >>> 8).toNat = n ∧ r.toUInt8 ∈ tags.string then some .stringRef
  else if records.any fun r => (r >>> 8).toNat = n ∧ r.toUInt8 ∈ tags.pointer then
    some .streamPointer
  else none

def ArgKind.ofPointer? : Option PointerKind → ArgKind
  | some k => k.argKind
  | none => .value

namespace Item

def kind (tags : TagSets) (i : Item) (n : Nat) : Option PointerKind :=
  recordKind tags i.records n

def instruction (tags : TagSets) (here : Nat) (i : Item) : Instruction where
  offset := UInt32.ofNat here
  opcode := i.opcode
  args := i.args
  kinds := (List.range i.opcode.argCount).map fun n => .ofPointer? (i.kind tags n)

def pointers (tags : TagSets) (here : Nat) (i : Item) : List Pointer :=
  (List.range i.opcode.argCount).filterMap fun n =>
    (i.kind tags n).map fun k => ⟨UInt32.ofNat (here + 4 * (n + 1)), k⟩

def size (i : Item) : Nat := 4 * (1 + i.opcode.argCount)

end Item

/-- The stream of items from `here` on, with its instructions and pointers. -/
def bodyOf (tags : TagSets) (here : Nat) : List Item → Body
  | [] => {}
  | i :: rest =>
    let b := bodyOf tags (here + i.size) rest
    { flow := i.code.flatMap Word.bytes ++ b.flow
      instructions := i.instruction tags here :: b.instructions
      pointers := i.pointers tags here ++ b.pointers
      annotated := (i.pointers tags here).length + b.annotated }

def Listing.program (tags : TagSets) (l : Listing) : Program :=
  let b := bodyOf tags 0 l.items
  { header := l.header
    flow := b.flow
    instructions := b.instructions
    pointers := b.pointers
    strings := l.strings
    annotated := b.annotated }

theorem Item.words_append_inj {i j : Item} {s t : Bytes} (hi : i.Framed) (hj : j.Framed)
    (h : i.words.flatMap Word.bytes ++ s = j.words.flatMap Word.bytes ++ t) :
    i = j ∧ s = t := by
  simp only [words, List.flatMap_cons, List.append_assoc] at h
  obtain ⟨hlead, h⟩ := Word.bytes_append_inj h
  cases i with
  | bare op args =>
    cases j with
    | bare op' args' =>
      obtain rfl : op = op' := congrArg Opcode.mk hlead
      have hl : args.length = args'.length := hi.2.2.trans hj.2.2.symm
      obtain ⟨rfl, rfl⟩ := Word.flatMap_bytes_append_inj hl h
      exact ⟨rfl, rfl⟩
    | marked records' op' args' => exact absurd hlead hi.1
  | marked records op args =>
    cases j with
    | bare op' args' => exact absurd hlead.symm hj.1
    | marked records' op' args' =>
      simp only [tail, List.flatMap_cons, List.flatMap_append, List.append_assoc] at h
      obtain ⟨hcount, h⟩ := Word.bytes_append_inj h
      have hn : records.length = records'.length := by
        have hc := congrArg UInt32.toNat hcount
        rwa [UInt32.toNat_ofNat_of_lt' hi.1, UInt32.toNat_ofNat_of_lt' hj.1] at hc
      obtain ⟨rfl, hcode⟩ := Word.flatMap_bytes_append_inj hn h
      obtain ⟨hop, hargs⟩ := Word.bytes_append_inj hcode
      obtain rfl : op = op' := congrArg Opcode.mk hop
      obtain ⟨rfl, rfl⟩ := Word.flatMap_bytes_append_inj (hi.2.trans hj.2.symm) hargs
      exact ⟨rfl, rfl⟩

theorem Item.words_append_ne {i : Item} (h : i.Framed) (s t : Bytes) :
    i.words.flatMap Word.bytes ++ s ≠ Word.bytes endMark ++ t := by
  intro he
  rw [words, List.flatMap_cons, List.append_assoc] at he
  exact lead_ne_endMark h (Word.bytes_append_inj he).1

theorem items_append_inj {items items' : List Item} {s t : Bytes}
    (hi : ∀ i ∈ items, i.Framed) (hj : ∀ i ∈ items', i.Framed)
    (h : (items.flatMap Item.words).flatMap Word.bytes ++ (Word.bytes endMark ++ s) =
      (items'.flatMap Item.words).flatMap Word.bytes ++ (Word.bytes endMark ++ t)) :
    items = items' ∧ s = t := by
  induction items generalizing items' with
  | nil =>
    cases items' with
    | nil => exact ⟨rfl, (Word.bytes_append_inj h).2⟩
    | cons j items' =>
      rw [List.flatMap_cons, List.flatMap_append, List.append_assoc] at h
      exact absurd h.symm (Item.words_append_ne (hj j List.mem_cons_self) _ _)
  | cons i items ih =>
    cases items' with
    | nil =>
      rw [List.flatMap_cons, List.flatMap_append, List.append_assoc] at h
      exact absurd h (Item.words_append_ne (hi i List.mem_cons_self) _ _)
    | cons j items' =>
      simp only [List.flatMap_cons, List.flatMap_append, List.append_assoc] at h
      obtain ⟨rfl, hrest⟩ :=
        Item.words_append_inj (hi i List.mem_cons_self) (hj j List.mem_cons_self) h
      obtain ⟨rfl, hs⟩ := ih (fun k hk => hi k (List.mem_cons_of_mem i hk))
        (fun k hk => hj k (List.mem_cons_of_mem i hk)) hrest
      exact ⟨rfl, hs⟩

theorem Listing.eq_of_bytes_eq {l m : Listing} (hl : ∀ i ∈ l.items, i.Framed)
    (hm : ∀ i ∈ m.items, i.Framed) (h : l.bytes = m.bytes) : l = m := by
  obtain ⟨⟨index, start, assets⟩, items, strings⟩ := l
  obtain ⟨⟨index', start', assets'⟩, items', strings'⟩ := m
  simp only [bytes, List.append_assoc] at h
  have hlen : [index, start, assets].length = [index', start', assets'].length := rfl
  obtain ⟨hh, hrest⟩ := Word.flatMap_bytes_append_inj hlen h
  obtain ⟨rfl, rfl⟩ := items_append_inj hl hm hrest
  simp only [List.cons.injEq] at hh
  obtain ⟨rfl, rfl, rfl, -⟩ := hh
  rfl

end FlowPack.Script
