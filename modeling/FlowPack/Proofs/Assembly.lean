import FlowPack.Proofs.Decoding
import FlowPack.Script.Assembler
import Mathlib.Data.List.Forall2

namespace FlowPack.Script

namespace Opcode

theorem toNat_pack (command : UInt16) (inlineArg : UInt32) {n : Nat} (hn : n ≤ maxArgs) :
    (pack command inlineArg n).word.toNat =
      command.toNat % 2 ^ 10 + 2 ^ 10 * n + 2 ^ 14 * (inlineArg.toNat % 2 ^ 18) := by
  unfold maxArgs at hn
  have hlow : (command.toUInt32 &&& 0x3FF).toNat = command.toNat % 2 ^ 10 := by
    rw [UInt32.toNat_and, UInt16.toNat_toUInt32]
    exact Nat.and_two_pow_sub_one_eq_mod _ 10
  have hcount : ((n : Int) % 16).toNat = n := by omega
  have hnat : (UInt32.ofNat n).toNat = n :=
    UInt32.toNat_ofNat_of_lt' (show n < 2 ^ 32 by omega)
  have h₁ := Word.toNat_or_shiftLeft (command.toUInt32 &&& 0x3FF) (UInt32.ofNat n) 10
  have h₂ := Word.toNat_or_shiftLeft
    (command.toUInt32 &&& (0x3FF : UInt32) ||| UInt32.ofNat n <<< 10) inlineArg 14
  simp only [UInt32.reduceToNat, hlow, hnat] at h₁ h₂
  simp only [pack, hcount]
  omega

variable (command : UInt16) (inlineArg : UInt32) {n : Nat} (hn : n ≤ maxArgs)

include hn

theorem toNat_command_pack :
    (pack command inlineArg n).command.toNat = command.toNat % 2 ^ 10 := by
  have h := toNat_pack command inlineArg hn
  have hm : (pack command inlineArg n).word.toNat &&& 1023 = _ :=
    Nat.and_two_pow_sub_one_eq_mod _ 10
  simp only [Opcode.command, UInt32.toNat_toUInt16, UInt32.toNat_and, UInt32.reduceToNat]
  omega

theorem argCount_pack : (pack command inlineArg n).argCount = n := by
  have h := toNat_pack command inlineArg hn
  have hm : (pack command inlineArg n).word.toNat / 2 ^ 10 &&& 15 = _ :=
    Nat.and_two_pow_sub_one_eq_mod _ 4
  unfold maxArgs at hn
  simp only [argCount, UInt32.toNat_and, UInt32.toNat_shiftRight, UInt32.reduceToNat,
    Nat.reduceMod, Nat.shiftRight_eq_div_pow]
  omega

theorem toNat_inlineArg_pack :
    (pack command inlineArg n).inlineArg.toNat = inlineArg.toNat % 2 ^ 18 := by
  have h := toNat_pack command inlineArg hn
  unfold maxArgs at hn
  simp only [Opcode.inlineArg, UInt32.toNat_shiftRight, UInt32.reduceToNat, Nat.reduceMod,
    Nat.shiftRight_eq_div_pow]
  omega

end Opcode

section Record

variable (tag : UInt8) {i : Nat} (hi : i < 2 ^ 24)

include hi

theorem toNat_record :
    (UInt32.ofNat i <<< 8 ||| tag.toUInt32).toNat = tag.toNat + 2 ^ 8 * i := by
  have ht := tag.toNat_lt
  have hn : (UInt32.ofNat i).toNat = i := UInt32.toNat_ofNat_of_lt' (show i < 2 ^ 32 by omega)
  have h := Word.toNat_or_shiftLeft tag.toUInt32 (UInt32.ofNat i) 8
  simp only [UInt32.reduceToNat, UInt8.toNat_toUInt32, hn] at h
  rw [UInt32.or_comm]
  omega

theorem index_record : ((UInt32.ofNat i <<< 8 ||| tag.toUInt32) >>> 8).toNat = i := by
  have ht := tag.toNat_lt
  have h := toNat_record tag hi
  simp only [UInt32.toNat_shiftRight, UInt32.reduceToNat, Nat.reduceMod,
    Nat.shiftRight_eq_div_pow, h]
  omega

theorem tag_record : (UInt32.ofNat i <<< 8 ||| tag.toUInt32).toUInt8 = tag := by
  have ht := tag.toNat_lt
  have h := toNat_record tag hi
  apply UInt8.toNat_inj.mp
  rw [UInt32.toNat_toUInt8, h]
  omega

end Record

namespace Argument

/-- The word written for an argument once the length of the stream is known. -/
def written (flowSize : UInt32) (a : Argument) : UInt32 :=
  if a.inStrings then a.value + flowSize else a.value

def pointerKind? (tags : TagSets) (a : Argument) : Option PointerKind := a.tag.bind tags.classify

def kind (tags : TagSets) (a : Argument) : ArgKind := .ofPointer? (a.pointerKind? tags)

end Argument

theorem mem_annotationRecords {args : List Argument} {k : Nat} {r : UInt32} :
    r ∈ annotationRecords k args ↔
      ∃ i tag, args[i]?.bind (·.tag) = some tag ∧
        r = (UInt32.ofNat (k + i) <<< 8 ||| tag.toUInt32) := by
  induction args generalizing k with
  | nil => simp [annotationRecords]
  | cons a args ih =>
    have hlater : (∃ i tag, (a :: args)[i + 1]?.bind (·.tag) = some tag ∧
        r = (UInt32.ofNat (k + (i + 1)) <<< 8 ||| tag.toUInt32)) ↔
        r ∈ annotationRecords (k + 1) args := by
      rw [ih]
      simp only [List.getElem?_cons_succ, Nat.add_assoc, Nat.add_comm 1]
    have hsplit : (∃ i tag, (a :: args)[i]?.bind (·.tag) = some tag ∧
        r = (UInt32.ofNat (k + i) <<< 8 ||| tag.toUInt32)) ↔
        (∃ tag, a.tag = some tag ∧ r = (UInt32.ofNat k <<< 8 ||| tag.toUInt32)) ∨
          r ∈ annotationRecords (k + 1) args := by
      rw [← hlater, ← Nat.or_exists_add_one]
      rfl
    rw [hsplit, annotationRecords]
    cases a.tag <;> simp

theorem length_annotationRecords_le (k : Nat) (args : List Argument) :
    (annotationRecords k args).length ≤ args.length := by
  induction args generalizing k with
  | nil => exact Nat.le_refl _
  | cons a args ih =>
    have h := ih (k + 1)
    rw [annotationRecords, List.length_cons]
    split
    · exact Nat.succ_le_succ h
    · exact Nat.le_succ_of_le h

theorem exists_record_iff {args : List Argument} (hl : args.length ≤ maxArgs) {n : Nat}
    {P : UInt8 → Prop} :
    (∃ r ∈ annotationRecords 0 args, (r >>> 8).toNat = n ∧ P r.toUInt8) ↔
      ∃ tag, args[n]?.bind (·.tag) = some tag ∧ P tag := by
  have hsmall : ∀ i tag, args[i]?.bind (·.tag) = some tag → 0 + i < 2 ^ 24 := by
    intro i tag h
    obtain ⟨a, ha, -⟩ := Option.bind_eq_some_iff.mp h
    have hi := (List.getElem?_eq_some_iff.mp ha).1
    unfold maxArgs at hl
    omega
  constructor
  · rintro ⟨r, hr, hn, hp⟩
    obtain ⟨i, tag, hi, rfl⟩ := mem_annotationRecords.mp hr
    rw [index_record tag (hsmall i tag hi), Nat.zero_add] at hn
    rw [tag_record tag (hsmall i tag hi)] at hp
    exact ⟨tag, hn ▸ hi, hp⟩
  · rintro ⟨tag, hi, hp⟩
    have hs := hsmall n tag hi
    refine ⟨_, mem_annotationRecords.mpr ⟨n, tag, hi, rfl⟩, ?_, ?_⟩
    · rw [index_record tag hs, Nat.zero_add]
    · rwa [tag_record tag hs]

theorem recordKind_annotationRecords (tags : TagSets) {args : List Argument}
    (hl : args.length ≤ maxArgs) (n : Nat) :
    recordKind tags (annotationRecords 0 args) n = args[n]?.bind (·.pointerKind? tags) := by
  have hb : args[n]?.bind (·.pointerKind? tags) = (args[n]?.bind (·.tag)).bind tags.classify :=
    (Option.bind_assoc ..).symm
  rw [hb, recordKind]
  simp only [List.any_eq_true, decide_eq_true_eq, exists_record_iff hl (P := (· ∈ tags.string)),
    exists_record_iff hl (P := (· ∈ tags.pointer))]
  cases args[n]?.bind (·.tag) with
  | none => simp
  | some tag => simp [TagSets.classify]

namespace Draft

def item (flowSize : UInt32) (d : Draft) : Item :=
  let args := d.args.map (Argument.written flowSize)
  if annotationRecords 0 d.args = [] then .bare d.opcode args
  else .marked (annotationRecords 0 d.args) d.opcode args

variable (flowSize : UInt32) (d : Draft)

@[simp] theorem opcode_item : (d.item flowSize).opcode = d.opcode := by
  unfold item
  split <;> rfl

@[simp] theorem args_item : (d.item flowSize).args = d.args.map (Argument.written flowSize) := by
  unfold item
  split <;> rfl

@[simp] theorem records_item : (d.item flowSize).records = annotationRecords 0 d.args := by
  unfold item
  split
  · next h => exact h.symm
  · rfl

theorem words_item : (d.item flowSize).words = d.words flowSize := by
  unfold item words
  split
  · next h => rw [h]; rfl
  · next h =>
    have he : (annotationRecords 0 d.args).isEmpty = false := by simpa using h
    simp only [he]
    rfl

theorem annotationRecords_eq_nil_iff {k : Nat} {args : List Argument} :
    annotationRecords k args = [] ↔ ∀ a ∈ args, a.tag = none := by
  induction args generalizing k with
  | nil => simp [annotationRecords]
  | cons a args ih =>
    rw [annotationRecords, List.forall_mem_cons, ← ih (k := k + 1)]
    cases a.tag <;> simp

variable {d}

theorem argCount_opcode (hl : d.args.length ≤ maxArgs) : d.opcode.argCount = d.args.length :=
  Opcode.argCount_pack d.command d.inlineArg hl

theorem valid_item (tags : TagSets) (hl : d.args.length ≤ maxArgs)
    (hm : (∀ a ∈ d.args, a.tag = none) →
      d.opcode.word ≠ endMark ∧ d.opcode.word ≠ blockMark) :
    (d.item flowSize).Valid tags := by
  have hc := argCount_opcode hl
  have ha : (d.args.map (Argument.written flowSize)).length = d.opcode.argCount := by
    rw [List.length_map, hc]
  constructor
  · unfold item
    split
    · next h =>
      obtain ⟨hend, hblock⟩ := hm (annotationRecords_eq_nil_iff.mp h)
      exact ⟨hblock, hend, ha⟩
    · have hr := length_annotationRecords_le 0 d.args
      unfold maxArgs at hl
      exact ⟨show _ < 2 ^ 32 by omega, ha⟩
  · intro r hr _
    rw [records_item] at hr
    obtain ⟨tag, ht, -⟩ := (exists_record_iff hl (P := fun _ => True)).mp ⟨r, hr, rfl, trivial⟩
    obtain ⟨a, hget, -⟩ := Option.bind_eq_some_iff.mp ht
    rw [opcode_item, hc]
    exact (List.getElem?_eq_some_iff.mp hget).1

end Draft

/-- A call that adds to an assembler. An argument is any value, so the references that earlier
calls returned are among them. -/
inductive Call where
  | emit (d : Draft)
  | unicode (t : Text)
  | ascii (t : Text)
  | raw (data : Bytes)
  deriving DecidableEq, Repr

structure Emission where
  offset : UInt32
  draft : Draft
  deriving DecidableEq, Repr

namespace Emission

def size (e : Emission) : Nat := 4 * (1 + e.draft.args.length)

def Placed (here : Nat) : List Emission → Prop
  | [] => True
  | e :: es => e.offset = UInt32.ofNat here ∧ Placed (here + e.size) es

def totalSize (es : List Emission) : Nat := (es.map size).sum

theorem totalSize_cons (e : Emission) (es : List Emission) :
    totalSize (e :: es) = e.size + totalSize es := List.sum_cons

end Emission

namespace Assembler

def apply (a : Assembler) : Call → Assembler
  | .emit d =>
    match a.emit d with
    | .ok b => b
    | .error _ => a
  | .unicode t => (a.addUnicode t).2
  | .ascii t => (a.addAscii t).2
  | .raw data => a.addRaw data

def run (a : Assembler) (calls : List Call) : Assembler := calls.foldl apply a

def emission? (a : Assembler) : Call → Option Emission
  | .emit d =>
    match a.emit d with
    | .ok _ => some ⟨a.here, d⟩
    | .error _ => none
  | _ => none

def emissions (a : Assembler) : List Call → List Emission
  | [] => []
  | c :: calls => (a.emission? c).toList ++ (a.apply c).emissions calls

theorem run_cons (a : Assembler) (c : Call) (calls : List Call) :
    a.run (c :: calls) = (a.apply c).run calls := rfl

/-- A call adds an instruction at the end of the stream, or string data. -/
theorem apply_cases (a : Assembler) (c : Call) :
    (∃ d, a.emission? c = some ⟨a.here, d⟩ ∧ d.args.length ≤ maxArgs ∧
      a.apply c = { a with
        drafts := a.drafts ++ [d]
        flowSize := a.flowSize + UInt32.ofNat (4 * (1 + d.args.length)) }) ∨
    (a.emission? c = none ∧ ∃ strings, a.apply c = { a with strings }) := by
  cases c with
  | emit d =>
    by_cases hl : d.args.length > maxArgs
    · refine .inr ⟨?_, a.strings, ?_⟩ <;> simp [emission?, apply, emit, hl]
    · refine .inl ⟨d, ?_, Nat.le_of_not_lt hl, ?_⟩ <;> simp [emission?, apply, emit, hl]
  | unicode t => exact .inr ⟨rfl, _, rfl⟩
  | ascii t => exact .inr ⟨rfl, _, rfl⟩
  | raw data => exact .inr ⟨rfl, _, rfl⟩

section Run

variable (a : Assembler) (calls : List Call)

theorem drafts_run : (a.run calls).drafts = a.drafts ++ (a.emissions calls).map (·.draft) := by
  induction calls generalizing a with
  | nil => simp [run, emissions]
  | cons c calls ih =>
    rw [run_cons, ih, emissions]
    obtain ⟨d, he, -, ha⟩ | ⟨he, strings, ha⟩ := apply_cases a c
    · rw [he, ha]
      simp
    · rw [he, ha]
      simp

theorem header_run : (a.run calls).header = a.header := by
  induction calls generalizing a with
  | nil => rfl
  | cons c calls ih =>
    rw [run_cons, ih]
    obtain ⟨d, -, -, ha⟩ | ⟨-, strings, ha⟩ := apply_cases a c <;> rw [ha]

theorem length_args_emissions : ∀ e ∈ a.emissions calls, e.draft.args.length ≤ maxArgs := by
  induction calls generalizing a with
  | nil => exact fun e he => absurd he List.not_mem_nil
  | cons c calls ih =>
    intro e he
    rw [emissions, List.mem_append] at he
    rcases he with he | he
    · obtain ⟨d, hd, hl, -⟩ | ⟨hd, -⟩ := apply_cases a c
      · rw [hd, Option.toList_some, List.mem_singleton] at he
        rw [he]
        exact hl
      · simp [hd] at he
    · exact ih (a.apply c) e he

theorem placed_emissions (here : Nat) (h : a.flowSize = UInt32.ofNat here) :
    Emission.Placed here (a.emissions calls) ∧
      (a.run calls).flowSize =
        UInt32.ofNat (here + Emission.totalSize (a.emissions calls)) := by
  induction calls generalizing a here with
  | nil => exact ⟨trivial, h⟩
  | cons c calls ih =>
    rw [run_cons, emissions]
    obtain ⟨d, he, -, ha⟩ | ⟨he, strings, ha⟩ := apply_cases a c
    · have hsize : (a.apply c).flowSize = UInt32.ofNat (here + 4 * (1 + d.args.length)) := by
        rw [ha, UInt32.ofNat_add, ← h]
      obtain ⟨hp, hf⟩ := ih (a.apply c) _ hsize
      rw [he, hf, Option.toList_some, List.singleton_append]
      refine ⟨⟨h, hp⟩, ?_⟩
      rw [Emission.totalSize_cons, ← Nat.add_assoc]
      rfl
    · have hsize : (a.apply c).flowSize = UInt32.ofNat here := by rw [ha, h]
      obtain ⟨hp, hf⟩ := ih (a.apply c) _ hsize
      rw [he, hf, Option.toList_none, List.nil_append]
      exact ⟨hp, rfl⟩

end Run

theorem bytes_eq_listing (a : Assembler) :
    a.bytes = Listing.bytes ⟨a.header, a.drafts.map (·.item a.flowSize), a.strings⟩ := by
  have hw : (a.drafts.map (·.item a.flowSize)).flatMap Item.words =
      a.drafts.flatMap (·.words a.flowSize) := by
    rw [List.flatMap_map]
    simp only [Draft.words_item]
  simp only [bytes, Listing.bytes, hw, List.flatMap_cons, List.flatMap_append, List.flatMap_nil,
    List.append_nil, List.append_assoc]

end Assembler

namespace Emission

def pointers (tags : TagSets) (e : Emission) : List Pointer :=
  (List.range e.draft.args.length).filterMap fun n =>
    (e.draft.args[n]?.bind (·.pointerKind? tags)).map fun k =>
      ⟨e.offset + UInt32.ofNat (4 * (n + 1)), k⟩

structure ReadAs (tags : TagSets) (flowSize : UInt32) (e : Emission) (i : Instruction) :
    Prop where
  offset : i.offset = e.offset
  command : i.opcode.command.toNat = e.draft.command.toNat % 2 ^ 10
  inlineArg : i.opcode.inlineArg.toNat = e.draft.inlineArg.toNat % 2 ^ 18
  argCount : i.opcode.argCount = e.draft.args.length
  args : i.args = e.draft.args.map fun a => if a.inStrings then a.value + flowSize else a.value
  kinds : i.kinds = e.draft.args.map (·.kind tags)

theorem readAs_instruction (tags : TagSets) (flowSize : UInt32) {e : Emission} {here : Nat}
    (hl : e.draft.args.length ≤ maxArgs) (ho : e.offset = UInt32.ofNat here) :
    ReadAs tags flowSize e ((e.draft.item flowSize).instruction tags here) where
  offset := ho.symm
  command := by
    rw [Item.instruction, Draft.opcode_item]
    exact Opcode.toNat_command_pack _ _ hl
  inlineArg := by
    rw [Item.instruction, Draft.opcode_item]
    exact Opcode.toNat_inlineArg_pack _ _ hl
  argCount := by
    rw [Item.instruction, Draft.opcode_item]
    exact Draft.argCount_opcode hl
  args := Draft.args_item flowSize e.draft
  kinds := by
    simp only [Item.instruction, Item.kind, Draft.opcode_item, Draft.records_item,
      Draft.argCount_opcode hl, recordKind_annotationRecords tags hl]
    apply List.ext_getElem
    · simp
    · intro n h₁ h₂
      have hn : n < e.draft.args.length := by simpa using h₂
      simp only [List.getElem_map, List.getElem_range, List.getElem?_eq_getElem hn,
        Option.bind_some, Argument.kind]

theorem pointers_item (tags : TagSets) (flowSize : UInt32) {e : Emission} {here : Nat}
    (hl : e.draft.args.length ≤ maxArgs) (ho : e.offset = UInt32.ofNat here) :
    (e.draft.item flowSize).pointers tags here = e.pointers tags := by
  simp only [Item.pointers, Item.kind, Draft.opcode_item, Draft.records_item,
    Draft.argCount_opcode hl, recordKind_annotationRecords tags hl, pointers, ho,
    UInt32.ofNat_add]

theorem bodyOf_items (tags : TagSets) (flowSize : UInt32) {es : List Emission} {here : Nat}
    (hp : Placed here es) (hl : ∀ e ∈ es, e.draft.args.length ≤ maxArgs) :
    List.Forall₂ (ReadAs tags flowSize) es
        (bodyOf tags here (es.map (·.draft.item flowSize))).instructions ∧
      (bodyOf tags here (es.map (·.draft.item flowSize))).pointers =
        es.flatMap (pointers tags) ∧
      (bodyOf tags here (es.map (·.draft.item flowSize))).flow.length = totalSize es := by
  induction es generalizing here with
  | nil => exact ⟨.nil, rfl, rfl⟩
  | cons e es ih =>
    obtain ⟨ho, hrest⟩ := hp
    have he := hl e List.mem_cons_self
    have hsize : (e.draft.item flowSize).size = e.size := by
      rw [Item.size, Draft.opcode_item, Draft.argCount_opcode he, size]
    obtain ⟨hi, hq, hf⟩ := ih hrest fun e' he' => hl e' (List.mem_cons_of_mem e he')
    rw [List.map_cons, bodyOf, hsize]
    refine ⟨.cons (readAs_instruction tags flowSize he ho) hi, ?_, ?_⟩
    · rw [List.flatMap_cons, pointers_item tags flowSize he ho, hq]
    · rw [List.length_append, hf, Word.length_flatMap_bytes, Item.code, List.length_cons,
        Draft.args_item, List.length_map, totalSize_cons, size]
      omega

end Emission

/-- An assembled script taken apart: the stream has one instruction for each emission. -/
structure Assembled (tags : TagSets) (flowSize : UInt32) (es : List Emission) (l : Listing) :
    Prop where
  valid : l.Valid tags
  size : flowSize.toNat = Emission.totalSize es
  instructions : List.Forall₂ (Emission.ReadAs tags flowSize) es (l.program tags).instructions
  pointers : (l.program tags).pointers = es.flatMap (Emission.pointers tags)
  length : (l.program tags).flow.length = flowSize.toNat

theorem assembled_run (tags : TagSets) (header : Header) (calls : List Call)
    (hflow : Emission.totalSize (Assembler.emissions { header } calls) < 2 ^ 32)
    (hmarks : ∀ e ∈ Assembler.emissions { header } calls, (∀ a ∈ e.draft.args, a.tag = none) →
      e.draft.opcode.word ≠ endMark ∧ e.draft.opcode.word ≠ blockMark) :
    ∃ l, Assembled tags (Assembler.run { header } calls).flowSize
        (Assembler.emissions { header } calls) l ∧
      l.bytes = (Assembler.run { header } calls).bytes ∧ l.header = header ∧
      l.strings = (Assembler.run { header } calls).strings := by
  have hl := Assembler.length_args_emissions { header } calls
  obtain ⟨hplaced, hsize⟩ := Assembler.placed_emissions { header } calls 0 rfl
  have hdrafts := Assembler.drafts_run { header } calls
  have hheader := Assembler.header_run { header } calls
  -- Of the run only the final state and what it has accepted are needed from here on.
  generalize Assembler.run { header } calls = a at *
  generalize Assembler.emissions { header } calls = es at *
  obtain ⟨hi, hp, hf⟩ := Emission.bodyOf_items tags a.flowSize hplaced hl
  have hitems : a.drafts.map (·.item a.flowSize) = es.map (·.draft.item a.flowSize) := by
    rw [hdrafts, List.nil_append, List.map_map]
    rfl
  have hvalid : Listing.Valid tags ⟨a.header, es.map (·.draft.item a.flowSize), a.strings⟩ := by
    intro i hm
    obtain ⟨e, he, rfl⟩ := List.mem_map.mp hm
    exact Draft.valid_item a.flowSize tags (hl e he) (hmarks e he)
  have hhere : a.flowSize.toNat = Emission.totalSize es := by
    rw [hsize, Nat.zero_add, UInt32.toNat_ofNat_of_lt' hflow]
  refine ⟨_, ⟨hvalid, hhere, hi, hp, hf.trans hhere.symm⟩, ?_, hheader, rfl⟩
  rw [Assembler.bytes_eq_listing, hitems]

/-- Decoding a binary undoes its assembly: every accepted instruction comes back at the offset it
was given, with its parts cut to their bits and string references counted from the start of the
stream. An instruction that looks like a mark must have an annotated argument. -/
theorem decode_undoes_assembly (tags : TagSets) (header : Header) (calls : List Call)
    (hflow : Emission.totalSize (Assembler.emissions { header } calls) < 2 ^ 32)
    (hmarks : ∀ e ∈ Assembler.emissions { header } calls, (∀ a ∈ e.draft.args, a.tag = none) →
      e.draft.opcode.word ≠ endMark ∧ e.draft.opcode.word ≠ blockMark) :
    ∃ p, (decode tags ⟨(Assembler.run { header } calls).bytes, none⟩).result = .ok p ∧
      p.header = header ∧
      List.Forall₂ (Emission.ReadAs tags (Assembler.run { header } calls).here)
        (Assembler.emissions { header } calls) p.instructions ∧
      p.pointers = (Assembler.emissions { header } calls).flatMap (Emission.pointers tags) ∧
      p.flow.length = (Assembler.run { header } calls).here.toNat ∧
      p.strings = (Assembler.run { header } calls).strings := by
  obtain ⟨l, hl, hbytes, hheader, hstrings⟩ := assembled_run tags header calls hflow hmarks
  rw [← hbytes]
  exact ⟨_, decode_words hl.valid, hheader, hl.instructions, hl.pointers, hl.length, hstrings⟩

/-- The second instruction has the word of a block mark, which its label makes safe. The third has
too many arguments and is refused. -/
def mixedCalls : List Call :=
  [.ascii (.ofString "hi"), .emit ⟨7, 3, [.int 5, ⟨0, some 2, true⟩]⟩, .raw [1, 2, 3],
    .emit ⟨0x3FF, 0x3FFFF, .label 0 :: List.replicate 14 (.int 9)⟩,
    .emit ⟨1, 0, List.replicate 16 (.int 0)⟩, .emit ⟨0x401, 0, []⟩]

theorem decode_undoes_assembly_marked :
    ∃ p, (decode .standard ⟨(Assembler.run { header := ⟨1, 0, 0⟩ } mixedCalls).bytes,
        none⟩).result = .ok p ∧
      p.flow.length = 80 ∧ p.instructions.length = 3 := by
  obtain ⟨p, hp, -, hi, -, hf, -⟩ :=
    decode_undoes_assembly .standard ⟨1, 0, 0⟩ mixedCalls (by decide) (by decide)
  exact ⟨p, hp, hf.trans (by decide), hi.length_eq.symm.trans (by decide)⟩

end FlowPack.Script
