import FlowPack.Proofs.Programs
import FlowPack.Script.Notes
import Mathlib.Data.List.Forall2

namespace FlowPack.Script

def Names (records : List UInt32) (n : Nat) (tag : UInt8 → Prop) : Prop :=
  ∃ r ∈ records, (r >>> 8).toNat = n ∧ tag r.toUInt8

section Kinds

variable {tags : TagSets} {records : List UInt32} {n : Nat}

theorem any_iff_names (tag : UInt8 → Prop) [DecidablePred tag] :
    (records.any fun r => (r >>> 8).toNat = n ∧ tag r.toUInt8) ↔ Names records n tag := by
  simp only [List.any_eq_true, decide_eq_true_eq, Names]

theorem recordKind_eq_stringRef_iff :
    recordKind tags records n = some .stringRef ↔ Names records n (· ∈ tags.string) := by
  unfold recordKind
  split
  · next hs => exact iff_of_true rfl ((any_iff_names _).mp hs)
  · next hs =>
    refine iff_of_false ?_ (mt (any_iff_names _).mpr hs)
    split <;> decide

theorem recordKind_eq_streamPointer_iff :
    recordKind tags records n = some .streamPointer ↔
      Names records n (fun t => t ∈ tags.pointer ∧ t ∉ tags.string) ∧
        ¬ Names records n (· ∈ tags.string) := by
  unfold recordKind
  split
  · next hs => exact iff_of_false (by decide) fun h => h.2 ((any_iff_names _).mp hs)
  · next hs =>
    rw [any_iff_names] at hs
    have hp : Names records n (· ∈ tags.pointer) ↔
        Names records n (fun t => t ∈ tags.pointer ∧ t ∉ tags.string) := by
      constructor
      · rintro ⟨r, hr, hn, ht⟩
        exact ⟨r, hr, hn, ht, fun hm => hs ⟨r, hr, hn, hm⟩⟩
      · rintro ⟨r, hr, hn, ht, -⟩
        exact ⟨r, hr, hn, ht⟩
    rw [← hp]
    split
    · next ht => exact iff_of_true rfl ⟨(any_iff_names _).mp ht, hs⟩
    · next ht => exact iff_of_false (by decide) fun h => ht ((any_iff_names _).mpr h.1)

end Kinds

/-- The instruction has the words of the item, and the kinds that its records give to the
arguments. -/
structure Item.ReadAs (tags : TagSets) (i : Item) (j : Instruction) : Prop where
  opcode : j.opcode = i.opcode
  args : j.args = i.args
  kinds : j.kinds.length = j.opcode.argCount
  string : ∀ n < j.opcode.argCount,
    (j.kinds[n]? = some .string ↔ Names i.records n (· ∈ tags.string))
  pointer : ∀ n < j.opcode.argCount,
    (j.kinds[n]? = some .pointer ↔
      Names i.records n (fun t => t ∈ tags.pointer ∧ t ∉ tags.string) ∧
        ¬ Names i.records n (· ∈ tags.string))
  value : ∀ n < j.opcode.argCount,
    (j.kinds[n]? = some .value ↔
      ¬ Names i.records n (· ∈ tags.string) ∧
        ¬ Names i.records n (fun t => t ∈ tags.pointer ∧ t ∉ tags.string))

theorem ArgKind.ofPointer?_cases (k : Option PointerKind)
    (h : ∀ l, k = some l → l = .stringRef ∨ l = .streamPointer) :
    (ArgKind.ofPointer? k = .string ↔ k = some .stringRef) ∧
      (ArgKind.ofPointer? k = .pointer ↔ k = some .streamPointer) ∧
      (ArgKind.ofPointer? k = .value ↔ k ≠ some .stringRef ∧ k ≠ some .streamPointer) := by
  cases k with
  | none => decide
  | some l =>
    rcases h l rfl with rfl | rfl <;> decide

namespace Item

theorem readAs_instruction (tags : TagSets) (here : Nat) (i : Item) :
    i.ReadAs tags (i.instruction tags here) := by
  have hcases := fun n => ArgKind.ofPointer?_cases (i.kind tags n) fun l hl => kind_cases hl
  have hk : ∀ n < i.opcode.argCount, ∀ k,
      (i.instruction tags here).kinds[n]? = some k ↔ .ofPointer? (i.kind tags n) = k :=
    fun n hn k => kinds_instruction.trans (and_iff_right hn)
  refine ⟨rfl, rfl, ?_, ?_, ?_, ?_⟩
  · rw [instruction, List.length_map, List.length_range]
  · intro n hn
    rw [hk n hn, (hcases n).1]
    exact recordKind_eq_stringRef_iff
  · intro n hn
    rw [hk n hn, (hcases n).2.1]
    exact recordKind_eq_streamPointer_iff
  · intro n hn
    rw [hk n hn, (hcases n).2.2]
    rw [ne_eq, ne_eq, kind, recordKind_eq_stringRef_iff, recordKind_eq_streamPointer_iff]
    tauto

end Item

theorem readAs_bodyOf (tags : TagSets) (here : Nat) (items : List Item) :
    List.Forall₂ (Item.ReadAs tags) items (bodyOf tags here items).instructions := by
  induction items generalizing here with
  | nil => exact .nil
  | cons i items ih => exact .cons (i.readAs_instruction tags here) (ih _)

def numbered (offset : Nat) : List UInt32 → List (Nat × UInt32)
  | [] => []
  | r :: rest => (offset, r) :: numbered (offset + 4) rest

/-- The records of items that stand from an offset on, in the order of the file. The records of a
block come after its mark and their count. -/
def recordsFrom (offset : Nat) : List Item → List (Nat × UInt32)
  | [] => []
  | i :: rest => numbered (offset + 8) i.records ++ recordsFrom (offset + 4 * i.words.length) rest

def Listing.records (l : Listing) : List (Nat × UInt32) := recordsFrom 12 l.items

def recordWarning (x : Nat × UInt32) : Journal.Entry where
  level := .warn
  fields := [("arg", .int (x.2 >>> 8).toNat), ("offset", .text ("0x" ++ Numeral.hex 1 x.1)),
    ("tag", .int x.2.toUInt8.toNat)]
  message := "Unrecognized annotation tag, treating argument as a plain value"

def strayAt (x : Nat × UInt32) : StrayTag := ⟨x.1, x.2.toUInt8, x.2 >>> 8⟩

theorem entry_strayAt (x : Nat × UInt32) : (strayAt x).entry = recordWarning x := by
  unfold StrayTag.entry recordWarning Journal.Fields.setAll
  simp only [List.foldl_cons, List.foldl_nil, Journal.Fields.set]
  rw [if_neg (by decide), if_neg (by decide), Journal.Fields.set, if_neg (by decide),
    if_pos (by decide)]
  rfl

theorem recordStrays_eq (tags : TagSets) (offset : Nat) (records : List UInt32) :
    recordStrays tags offset records =
      ((numbered offset records).filter fun x => ¬ tags.Recognises x.2).map strayAt := by
  induction records generalizing offset with
  | nil => rfl
  | cons r records ih =>
    have hr := tags.isSome_classify_iff r
    rw [recordStrays, numbered]
    cases hk : tags.classify r.toUInt8 with
    | none =>
      rw [hk] at hr
      have hno : ¬ tags.Recognises r := fun h => absurd (hr.mpr h) (by decide)
      simp [hno, ih, strayAt]
    | some k =>
      rw [hk] at hr
      simp [hr.mp rfl, ih]

theorem bodyStrays_eq (tags : TagSets) (offset : Nat) (items : List Item) :
    bodyStrays tags offset items =
      ((recordsFrom offset items).filter fun x => ¬ tags.Recognises x.2).map strayAt := by
  induction items generalizing offset with
  | nil => rfl
  | cons i items ih =>
    rw [bodyStrays, recordsFrom, List.filter_append, List.map_append, ← ih, Item.strays,
      recordStrays_eq]

theorem mem_numbered_iff {offset : Nat} {records : List UInt32} {x : Nat × UInt32} :
    x ∈ numbered offset records ↔
      ∃ n, records[n]? = some x.2 ∧ x.1 = offset + 4 * n := by
  induction records generalizing offset with
  | nil => simp [numbered]
  | cons r records ih =>
    rw [numbered, List.mem_cons, ih]
    constructor
    · rintro (rfl | ⟨n, hn, ho⟩)
      · exact ⟨0, rfl, rfl⟩
      · exact ⟨n + 1, hn, by omega⟩
    · rintro ⟨n, hn, ho⟩
      cases n with
      | zero => exact .inl (Prod.ext ho (Option.some.inj hn).symm)
      | succ n => exact .inr ⟨n, hn, by omega⟩

theorem pairwise_numbered (offset : Nat) (records : List UInt32) :
    (numbered offset records).Pairwise fun x y => x.1 < y.1 := by
  induction records generalizing offset with
  | nil => exact .nil
  | cons r records ih =>
    refine .cons ?_ (ih _)
    intro y hy
    obtain ⟨n, -, ho⟩ := mem_numbered_iff.mp hy
    simp only [ho]
    omega

theorem Item.words_of_record {i : Item} {n : Nat} {r : UInt32} (h : i.records[n]? = some r) :
    i.words[n + 2]? = some r := by
  cases i with
  | bare op args => cases h
  | marked records op args =>
    have hn := (List.getElem?_eq_some_iff.mp h).1
    exact (List.getElem?_append_left hn).trans h

theorem le_of_mem_recordsFrom {offset : Nat} {items : List Item} :
    ∀ x ∈ recordsFrom offset items, offset ≤ x.1 := by
  induction items generalizing offset with
  | nil => exact fun x hx => absurd hx List.not_mem_nil
  | cons i items ih =>
    intro x hx
    rcases List.mem_append.mp hx with hx | hx
    · obtain ⟨n, -, ho⟩ := mem_numbered_iff.mp hx
      omega
    · have := ih x hx
      omega

theorem pairwise_recordsFrom (offset : Nat) (items : List Item) :
    (recordsFrom offset items).Pairwise fun x y => x.1 < y.1 := by
  induction items generalizing offset with
  | nil => exact .nil
  | cons i items ih =>
    refine List.pairwise_append.mpr ⟨pairwise_numbered _ _, ih _, ?_⟩
    intro x hx y hy
    obtain ⟨n, hn, ho⟩ := mem_numbered_iff.mp hx
    have hlt := (List.getElem?_eq_some_iff.mp (Item.words_of_record hn)).1
    have hle := le_of_mem_recordsFrom y hy
    omega

theorem at?_recordsFrom (before after : Bytes) (items : List Item) :
    ∀ x ∈ recordsFrom before.length items,
      Word.at? (before ++ ((items.flatMap Item.words).flatMap Word.bytes ++ after)) x.1 =
        some x.2 := by
  induction items generalizing before with
  | nil => exact fun x hx => absurd hx List.not_mem_nil
  | cons i items ih =>
    intro x hx
    rw [List.flatMap_cons, List.flatMap_append, List.append_assoc]
    rcases List.mem_append.mp hx with hx | hx
    · obtain ⟨n, hn, ho⟩ := mem_numbered_iff.mp hx
      have ho' : x.1 = before.length + 4 * (n + 2) := by omega
      rw [ho']
      exact Word.at?_flatMap_bytes before _ (Item.words_of_record hn)
    · have hlen : before.length + 4 * i.words.length =
          (before ++ i.words.flatMap Word.bytes).length := by
        rw [List.length_append, Word.length_flatMap_bytes]
      rw [hlen] at hx
      have := ih _ x hx
      rwa [List.append_assoc] at this

theorem Listing.at?_records (l : Listing) :
    ∀ x ∈ l.records, Word.at? l.bytes x.1 = some x.2 := by
  have h := at?_recordsFrom ([l.header.index, l.header.start, l.header.assets].flatMap Word.bytes)
    (Word.bytes endMark ++ l.strings) l.items
  rw [Listing.bytes, List.append_assoc, List.append_assoc]
  exact h

section Restyling

variable {tags : TagSets}

theorem names_congr {records records' : List UInt32}
    (h : ∀ r, tags.Recognises r → (r ∈ records ↔ r ∈ records')) {n : Nat} {tag : UInt8 → Prop}
    (ht : ∀ t, tag t → t ∈ tags.string ∨ t ∈ tags.pointer) :
    Names records n tag ↔ Names records' n tag := by
  constructor
  · rintro ⟨r, hr, hn, htag⟩
    exact ⟨r, (h r (ht _ htag)).mp hr, hn, htag⟩
  · rintro ⟨r, hr, hn, htag⟩
    exact ⟨r, (h r (ht _ htag)).mpr hr, hn, htag⟩

theorem recordKind_congr {records records' : List UInt32}
    (h : ∀ r, tags.Recognises r → (r ∈ records ↔ r ∈ records')) (n : Nat) :
    recordKind tags records n = recordKind tags records' n := by
  have hany : ∀ (tag : UInt8 → Prop) [DecidablePred tag],
      (∀ t, tag t → t ∈ tags.string ∨ t ∈ tags.pointer) →
        (records.any fun r => (r >>> 8).toNat = n ∧ tag r.toUInt8) =
          records'.any fun r => (r >>> 8).toNat = n ∧ tag r.toUInt8 := by
    intro tag _ ht
    rw [Bool.eq_iff_iff, any_iff_names, any_iff_names]
    exact names_congr h ht
  rw [recordKind, hany (· ∈ tags.string) fun t => .inl, hany (· ∈ tags.pointer) fun t => .inr]
  rfl

/-- The second item is the instruction of the first, with the same recognised records in whatever
order and number, and with any other records. -/
structure Item.Restyles (tags : TagSets) (i j : Item) : Prop where
  opcode : j.opcode = i.opcode
  args : j.args = i.args
  records : ∀ r, tags.Recognises r → (r ∈ j.records ↔ r ∈ i.records)

theorem Item.Restyles.valid {i j : Item} (h : i.Restyles tags j) (hi : i.Valid tags)
    (hj : j.Framed) : j.Valid tags := by
  refine ⟨hj, ?_⟩
  intro r hr hk
  rw [h.opcode]
  exact hi.2 r ((h.records r ((tags.isSome_classify_iff r).mp hk)).mp hr) hk

theorem valid_of_restyles {items items' : List Item}
    (h : List.Forall₂ (Item.Restyles tags) items items') (hv : ∀ i ∈ items, i.Valid tags)
    (hf : ∀ j ∈ items', j.Framed) : ∀ j ∈ items', j.Valid tags := by
  induction h with
  | nil => exact fun j hj => absurd hj List.not_mem_nil
  | cons hij _ ih =>
    rw [List.forall_mem_cons] at hv hf ⊢
    exact ⟨hij.valid hv.1 hf.1, ih hv.2 hf.2⟩

theorem bodyOf_of_restyles {items items' : List Item}
    (h : List.Forall₂ (Item.Restyles tags) items items') (here : Nat) :
    bodyOf tags here items' = bodyOf tags here items := by
  induction h generalizing here with
  | nil => rfl
  | cons hij _ ih =>
    simp only [bodyOf, Item.size, Item.code, Item.instruction, Item.pointers, Item.kind,
      hij.opcode, hij.args, recordKind_congr hij.records, ih]

end Restyling

/-- The records of a script that is decoded are all accounted for. Those that are recognised give
their arguments a kind, and any others to the same effect give the same program. About the rest
there is one warning each, in the order of the file. -/
theorem decode_accounts_for_records {tags : TagSets} {s : Source} {p : Program}
    (h : (decode tags s).result = .ok p) :
    ∃ l : Listing, l.Valid tags ∧ l.bytes = s.data ∧
      List.Forall₂ (Item.ReadAs tags) l.items p.instructions ∧
      (decode tags s).strays.map StrayTag.entry =
        (l.records.filter fun x => ¬ tags.Recognises x.2).map recordWarning ∧
      (∀ x ∈ l.records, Word.at? s.data x.1 = some x.2) ∧
      (l.records.Pairwise fun x y => x.1 < y.1) ∧
      ∀ m : Listing, m.header = l.header → m.strings = l.strings →
        List.Forall₂ (Item.Restyles tags) l.items m.items → (∀ j ∈ m.items, j.Framed) →
          (decode tags ⟨m.bytes, none⟩).result = .ok p := by
  obtain ⟨data, fault⟩ := s
  obtain rfl : fault = none := fault_of_decode h
  obtain ⟨l, hv, rfl, rfl⟩ := decode_eq_ok_iff.mp h
  refine ⟨l, hv, rfl, readAs_bodyOf tags 0 l.items, ?_, l.at?_records,
    pairwise_recordsFrom 12 l.items, ?_⟩
  · have hs : (decode tags ⟨l.bytes, none⟩).strays = bodyStrays tags 12 l.items := by
      rw [decode_listing hv]
      exact List.append_nil _
    have he : StrayTag.entry ∘ strayAt = recordWarning := funext entry_strayAt
    rw [hs, bodyStrays_eq, List.map_map, he]
    rfl
  · intro m hheader hstrings hr hf
    rw [decode_words (valid_of_restyles hr hv hf), Listing.program, Listing.program, hheader,
      hstrings, bodyOf_of_restyles hr]

def repointedListing : Listing where
  header := ⟨3, 0, 0⟩
  items := [.marked [0x99] (.pack 1 0 1) [5],
    .marked [0x200, 0xFFFFFF05, 0x201, 0, 0x200] (.pack 2 9 3) [0, 7, 24]]
  strings := [0x61, 0]

theorem decode_accounts_for_records_pointed :
    (decode .standard ⟨pointedListing.bytes, none⟩).strays.map StrayTag.entry =
        [recordWarning (32, 0x17)] ∧
      (decode .standard ⟨repointedListing.bytes, none⟩).result =
        .ok (pointedListing.program .standard) := by
  have hv : pointedListing.Valid .standard := by decide
  obtain ⟨l, hl, hb, -, hw, -, -, hr⟩ := decode_accounts_for_records (decode_words hv)
  obtain rfl : l = pointedListing :=
    Listing.eq_of_bytes_eq (fun i hi => (hl i hi).1) (fun i hi => (hv i hi).1) hb
  have hstray : (pointedListing.records.filter fun x => ¬ TagSets.standard.Recognises x.2) =
      [(32, 0x17)] := by decide
  rw [hstray] at hw
  refine ⟨hw, hr repointedListing rfl rfl ?_ (by decide)⟩
  -- A recognised record is none of the stray ones.
  have hne : ∀ r s : UInt32, TagSets.standard.Recognises r → ¬ TagSets.standard.Recognises s →
      r ≠ s := by
    rintro r s hr hs rfl
    exact hs hr
  refine .cons ⟨rfl, rfl, ?_⟩ (.cons ⟨rfl, rfl, ?_⟩ .nil)
  · intro r hr
    have h₁ := hne r 0x99 hr (by decide)
    simp [Item.records, h₁]
  · intro r hr
    have h₁ := hne r 0xFFFFFF05 hr (by decide)
    have h₂ := hne r 0x17 hr (by decide)
    simp only [Item.records, List.mem_cons, List.not_mem_nil, h₁, h₂, false_or, or_false]
    exact or_iff_right_of_imp fun h => .inr (.inr h)

end FlowPack.Script
