import FlowPack.Proofs.Recovery

namespace FlowPack

namespace Script

/-- An argument where it stands in the stream. -/
structure Operand where
  offset : Nat
  value : UInt32
  kind : ArgKind
  deriving DecidableEq, Repr

def Instruction.operands (i : Instruction) : List Operand :=
  (i.args.zip i.kinds).mapIdx fun n a => ⟨i.offset.toNat + 4 * (n + 1), a.1, a.2⟩

def Program.operands (p : Program) : List Operand := p.instructions.flatMap Instruction.operands

def Operand.pointer? (a : Operand) : Option Pointer :=
  match a.kind with
  | .value => none
  | .string => some ⟨UInt32.ofNat a.offset, .stringRef⟩
  | .pointer => some ⟨UInt32.ofNat a.offset, .streamPointer⟩

theorem Instruction.mem_operands_iff {i : Instruction} {a : Operand} :
    a ∈ i.operands ↔ ∃ n, i.args[n]? = some a.value ∧ i.kinds[n]? = some a.kind ∧
      a.offset = i.offset.toNat + 4 * (n + 1) := by
  rw [operands, List.mem_iff_getElem?]
  simp only [List.getElem?_mapIdx, Option.map_eq_some_iff, Prod.exists, List.getElem?_zip_eq_some]
  constructor
  · rintro ⟨n, v, k, ⟨hv, hk⟩, rfl⟩
    exact ⟨n, hv, hk, rfl⟩
  · rintro ⟨n, hv, hk, ho⟩
    exact ⟨n, a.value, a.kind, ⟨hv, hk⟩, by rw [← ho]⟩

namespace Item

variable {tags : TagSets} {here : Nat} {i : Item} (hi : i.Framed) (hb : here + i.size < 2 ^ 32)

include hi hb

theorem operands_instruction :
    (i.instruction tags here).operands = (List.range i.opcode.argCount).map fun n =>
      ⟨here + 4 * (n + 1), i.args.getD n 0, .ofPointer? (i.kind tags n)⟩ := by
  apply List.ext_getElem?
  intro n
  rw [Instruction.operands, List.getElem?_mapIdx, toNat_offset_instruction hb, List.getElem?_map]
  by_cases hn : n < i.opcode.argCount
  · have hargs : i.args[n]? = some (i.args.getD n 0) := by
      rw [List.getD_eq_getElem?_getD, List.getElem?_eq_getElem (by rwa [length_args hi])]
      rfl
    have hzip : ((i.instruction tags here).args.zip (i.instruction tags here).kinds)[n]? =
        some (i.args.getD n 0, .ofPointer? (i.kind tags n)) :=
      List.getElem?_zip_eq_some.mpr ⟨hargs, kinds_instruction.mpr ⟨hn, rfl⟩⟩
    rw [hzip, List.getElem?_range hn]
    rfl
  · have hlen :
        ((i.instruction tags here).args.zip (i.instruction tags here).kinds).length ≤ n := by
      rw [List.length_zip]
      exact (Nat.min_le_left ..).trans (by rw [instruction, length_args hi]; omega)
    rw [List.getElem?_eq_none hlen, List.getElem?_eq_none (by rw [List.length_range]; omega)]
    rfl

theorem filterMap_operands :
    (i.instruction tags here).operands.filterMap Operand.pointer? = i.pointers tags here := by
  rw [operands_instruction hi hb, List.filterMap_map, pointers]
  apply List.filterMap_congr
  intro n _
  cases hk : i.kind tags n with
  | none =>
    simp only [Function.comp_apply, hk]
    rfl
  | some k =>
    simp only [Function.comp_apply, hk]
    rcases kind_cases hk with rfl | rfl <;> rfl

end Item

theorem filterMap_operands {tags : TagSets} {here : Nat} {items : List Item}
    (h : Streamed tags here items) :
    ((bodyOf tags here items).instructions.flatMap Instruction.operands).filterMap
      Operand.pointer? = (bodyOf tags here items).pointers := by
  induction items generalizing here with
  | nil => rfl
  | cons i items ih =>
    obtain ⟨hi, hb, hrest⟩ := h.cons
    rw [bodyOf, List.flatMap_cons, List.filterMap_append, Item.filterMap_operands hi hb, ih hrest]

theorem countP_filterMap_pointer? (as : List Operand) {k : PointerKind}
    (hk : k = .stringRef ∨ k = .streamPointer) :
    (as.filterMap Operand.pointer?).countP (·.kind = k) =
      as.countP (·.kind = k.argKind) := by
  have hne : PointerKind.streamPointer ≠ .stringRef := by decide
  rw [List.countP_filterMap]
  apply List.countP_congr
  intro a _
  rcases hk with rfl | rfl <;> cases ha : a.kind <;>
    simp [Operand.pointer?, ha, PointerKind.argKind, hne, hne.symm]

/-- The arguments that refer to a string at or past the end of the string data. -/
def Program.dangling (p : Program) : List Operand :=
  p.operands.filter fun a =>
    a.kind = .string ∧ p.flow.length + p.strings.length ≤ a.value.toNat

end Script

open Script

section Decoded

variable {tags : TagSets} {l : Listing} (h : Streamed tags 0 l.items)

include h

theorem pointers_program :
    (l.program tags).operands.filterMap Operand.pointer? = (l.program tags).pointers :=
  filterMap_operands h

theorem countP_pointers {k : PointerKind} (hk : k = .stringRef ∨ k = .streamPointer) :
    (l.program tags).pointers.countP (·.kind = k) =
      (l.program tags).operands.countP (·.kind = k.argKind) := by
  rw [← pointers_program h]
  exact countP_filterMap_pointer? _ hk

theorem at?_operand {a : Operand} (ha : a ∈ (l.program tags).operands) :
    Word.at? (l.program tags).flow a.offset = some a.value := by
  obtain ⟨i, hi, ha⟩ := List.mem_flatMap.mp ha
  obtain ⟨n, hv, -, ho⟩ := Instruction.mem_operands_iff.mp ha
  rw [ho]
  exact at?_word h hi (m := n + 1) hv

theorem toNat_offset_operand {a : Operand} (ha : a ∈ (l.program tags).operands) :
    (UInt32.ofNat a.offset).toNat = a.offset := by
  have hle := Word.le_length_of_at? (at?_operand h ha)
  have hlt := length_flow_lt h
  exact UInt32.toNat_ofNat_of_lt' (show a.offset < 2 ^ 32 by omega)

/-- What dangles in the relocated stream is what dangles in the script. -/
theorem danglingStrings_eq {code : Bytes} (hr : Rebased (l.program tags) code) :
    danglingStrings code (l.program tags).pointers (l.program tags).strings.length =
      (l.program tags).dangling.map fun a => ⟨UInt32.ofNat a.offset, .stringRef⟩ := by
  rw [danglingStrings, ← pointers_program h, List.filter_filterMap, Program.dangling,
    ← List.filterMap_eq_map, List.filterMap_filter]
  apply List.filterMap_congr
  intro a ha
  cases hk : a.kind with
  | value => simp [Operand.pointer?, hk]
  | pointer => simp [Operand.pointer?, hk, PointerKind.stringRef, PointerKind.streamPointer]
  | string =>
    have hq : (⟨UInt32.ofNat a.offset, .stringRef⟩ : Pointer) ∈ (l.program tags).pointers := by
      rw [← pointers_program h]
      exact List.mem_filterMap.mpr ⟨a, ha, by simp only [Operand.pointer?, hk]⟩
    obtain ⟨v, w, hv, hw, hvw⟩ := hr.string _ hq rfl
    rw [toNat_offset_operand h ha] at hv hw
    obtain rfl := Option.some.inj (hv.symm.trans (at?_operand h ha))
    have hiff : (l.program tags).strings.length ≤ w.toNat ↔
        (l.program tags).flow.length + (l.program tags).strings.length ≤ a.value.toNat := by
      omega
    simp only [Operand.pointer?, hk, Option.filter_some, toNat_offset_operand h ha, hw, hiff,
      decide_true, Bool.true_and, true_and]
    rfl

theorem pairwise_dangling {code : Bytes} (hr : Rebased (l.program tags) code) :
    (l.program tags).dangling.Pairwise (·.offset < ·.offset) := by
  have hp : (danglingStrings code (l.program tags).pointers
      (l.program tags).strings.length).Pairwise _ :=
    (pairwise_pointers h).sublist List.filter_sublist
  rw [danglingStrings_eq h hr, List.pairwise_map] at hp
  apply hp.imp_of_mem
  intro a b ha hb hle
  rw [toNat_offset_operand h (List.mem_of_mem_filter ha),
    toNat_offset_operand h (List.mem_of_mem_filter hb)] at hle
  omega

end Decoded

def danglingWarning (stringSize : Nat) (a : Operand) : Journal.Entry where
  level := .warn
  fields := [("component", .text "convert"),
    ("offset", .text s!"0x{Numeral.hex 1 a.offset}")]
  message :=
    s!"String reference points past the end of the string data ({stringSize} bytes)"

theorem within_danglingNote (n : Nat) {a : Operand}
    (ha : (UInt32.ofNat a.offset).toNat = a.offset) :
    (danglingNote n ⟨UInt32.ofNat a.offset, .stringRef⟩).within conversionFields =
      danglingWarning n a := by
  simp only [danglingNote, Journal.Entry.within, conversionFields, Journal.Fields.setAll,
    List.foldl_cons, List.foldl_nil, Journal.Fields.set, ha]
  rw [if_neg (by decide), if_neg (by decide)]
  rfl

theorem convert_of_decode {tags : TagSets} {s : Source} {p : Program}
    (h : (decode tags s).result = .ok p) :
    convert tags s =
      ⟨((decode tags s).strays.map (·.entry) ++ (Program.convert p).notes).map
        (·.within conversionFields), (Program.convert p).result⟩ := by
  simp only [convert, h]

theorem notes_convert {tags : TagSets} {l : Listing} (h : Streamed tags 0 l.items)
    (hr : Rebased (l.program tags) (packed (l.program tags)).code)
    (hrel : (relocate (l.program tags).flow (l.program tags).pointers).2 = none) :
    (Program.convert (l.program tags)).notes.map (·.within conversionFields) =
      (l.program tags).dangling.map (danglingWarning (l.program tags).strings.length) := by
  rw [convert_packed hrel, danglingStrings_eq h hr, List.map_map, List.map_map]
  apply List.map_congr_left
  intro a ha
  exact within_danglingNote _ (toNat_offset_operand h (List.mem_of_mem_filter ha))

structure Summary.Counts (s : Summary) (p : Program) (c : Container) : Prop where
  strings : s.stringRefs = p.operands.countP (·.kind = .string)
  pointers : s.streamPointers = p.operands.countP (·.kind = .pointer)
  annotated : s.stringRefs + s.streamPointers = p.annotated
  dangling : s.dangling = p.dangling.length
  flowSize : s.flowSize = c.code.length
  stringSize : s.stringSize = c.strings.length
  encoded : ∃ bytes, c.encode = .ok bytes ∧ s.size.toNat = bytes.length ∧
    s.digest = Digest.xxHash64 bytes

theorem counts_packed {tags : TagSets} {l : Listing} (h : Streamed tags 0 l.items)
    (hr : Rebased (l.program tags) (packed (l.program tags)).code)
    (hsize : packedLength (l.program tags) < 2 ^ 32) :
    (packedSummary (l.program tags)).Counts (l.program tags) (packed (l.program tags)) where
  strings := countP_pointers h (.inl rfl)
  pointers :=
    (countP_streamPointer kind_of_mem_pointers).symm.trans (countP_pointers h (.inr rfl))
  annotated := by
    have hle := List.countP_le_length (p := fun q : Pointer => q.kind = .stringRef)
      (l := (l.program tags).pointers)
    have hcount : (l.program tags).annotated = (l.program tags).pointers.length :=
      annotated_bodyOf tags 0 l.items
    rw [hcount]
    exact Nat.add_sub_cancel' hle
  dangling := by rw [packedSummary, danglingStrings_eq h hr, List.length_map]
  flowSize := hr.length.symm
  stringSize := rfl
  encoded := by
    refine ⟨_, Container.encode_eq_ok rfl, ?_, rfl⟩
    have hs : (packed (l.program tags)).header.size = UInt32.ofNat _ :=
      Container.size_headerOf (packed (l.program tags)).sections
    rw [packedSummary, hs, ← Container.length_sectionsBytes, length_sectionsBytes_packed]
    exact UInt32.toNat_ofNat_of_lt' hsize

/-- The summary of a conversion counts the arguments of the script as they were decoded, and the
journal warns about each dangling one in the order of the stream. -/
theorem summary_counts_operands {tags : TagSets} {s : Source} {r : Converted}
    (hr : (convert tags s).result = .ok r)
    (hsize : ∀ bytes, r.container.encode = .ok bytes → bytes.length < 2 ^ 32) :
    ∃ p, (decode tags s).result = .ok p ∧ r.summary.Counts p r.container ∧
      (∀ a ∈ p.operands, Word.at? p.flow a.offset = some a.value) ∧
      p.dangling.Pairwise (·.offset < ·.offset) ∧
      (convert tags s).notes =
        (decode tags s).strays.map (·.entry.within conversionFields) ++
          p.dangling.map (danglingWarning p.strings.length) := by
  obtain ⟨p, hp, hc⟩ := convert_eq_ok_iff.mp hr
  obtain ⟨data, fault⟩ := s
  obtain rfl : fault = none := fault_of_decode hp
  obtain rfl := convert_eq_packed hc
  have he := Container.encode_eq_ok (c := packed p) rfl
  have hshort := hsize _ he
  obtain ⟨l, rfl, hl, hreb, -⟩ := exists_listing_of_convert hp hr he hshort
  have hlen : packedLength (l.program tags) < 2 ^ 32 := by
    rwa [length_sectionsBytes_packed] at hshort
  refine ⟨_, hp, counts_packed hl hreb hlen, fun a ha => at?_operand hl ha,
    pairwise_dangling hl hreb, ?_⟩
  rw [convert_of_decode hp, List.map_append, notes_convert hl hreb (relocated_of_convert hc),
    List.map_map]
  rfl

def overrun : Listing where
  header := ⟨1, 0, 0⟩
  items := [.marked [1, 0x101, 0x200] (.pack 5 0 3) [16, 20, 0]]
  strings := [0x68, 0, 0, 0]

theorem summary_counts_operands_overrun :
    ∃ r, (convert .standard ⟨overrun.bytes, none⟩).result = .ok r ∧ r.summary.stringRefs = 2 ∧
      r.summary.streamPointers = 1 ∧ r.summary.dangling = 1 ∧
      (convert .standard ⟨overrun.bytes, none⟩).notes =
        [danglingWarning 4 ⟨8, 20, .string⟩] := by
  have hv : overrun.Valid .standard := by decide
  obtain ⟨r, hr, hc⟩ := convert_listing hv (by decide) (by decide)
  obtain ⟨p, hp, hcounts, -, -, hnotes⟩ := summary_counts_operands hr (by
    intro bytes hb
    rw [hc, Container.encode_eq_ok rfl] at hb
    obtain rfl := Except.ok.inj hb
    rw [Container.length_sectionsBytes]
    decide)
  obtain rfl := Except.ok.inj ((decode_words hv).symm.trans hp)
  have hstrays : (decode .standard ⟨overrun.bytes, none⟩).strays = [] := by
    rw [decode_listing hv]
    rfl
  have hdangling : (overrun.program .standard).dangling = [⟨8, 20, .string⟩] := by decide
  rw [hstrays, hdangling] at hnotes
  exact ⟨r, hr, hcounts.strings, hcounts.pointers, hcounts.dangling, hnotes⟩

end FlowPack
