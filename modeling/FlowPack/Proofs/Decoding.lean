import FlowPack.Proofs.Grammar

namespace FlowPack.Script

namespace Cursor

@[simp] theorem next?_bytes_append (offset : Nat) (w : UInt32) (rest : Bytes)
    (fault : Option Fault) :
    (⟨offset, Word.bytes w ++ rest, fault⟩ : Cursor).next? =
      some (w, ⟨offset + 4, rest, fault⟩) := by
  simp [next?]

theorem rest_of_next? {c d : Cursor} {w : UInt32} (h : c.next? = some (w, d)) :
    c.rest = Word.bytes w ++ d.rest := by
  obtain ⟨⟨v, rest⟩, hw, he⟩ := Option.map_eq_some_iff.1 h
  obtain ⟨rfl, rfl⟩ := Prod.mk.injEq .. ▸ he
  exact Word.take?_eq_some_iff.mp hw

theorem eq_of_next? {c d : Cursor} {w : UInt32} (h : c.next? = some (w, d)) :
    c = ⟨c.offset, Word.bytes w ++ d.rest, c.fault⟩ ∧ d = ⟨c.offset + 4, d.rest, c.fault⟩ := by
  obtain ⟨offset, data, fault⟩ := c
  obtain rfl : data = Word.bytes w ++ d.rest := rest_of_next? h
  rw [next?_bytes_append] at h
  exact ⟨rfl, (Prod.mk.inj (Option.some.inj h)).2.symm⟩

end Cursor

theorem Step.andThen_ok {α β : Type} (strays : List StrayTag) (c : Cursor) (a : α)
    (f : α → Cursor → Step β) :
    (⟨strays, c, .ok a⟩ : Step α).andThen f =
      ⟨strays ++ (f a c).strays, (f a c).cursor, (f a c).result⟩ := rfl

theorem Step.andThen_eq_ok {α β : Type} {s : Step α} {f : α → Cursor → Step β} {b : β}
    (h : (s.andThen f).result = .ok b) :
    ∃ a, s.result = .ok a ∧ (f a s.cursor).result = .ok b := by
  unfold Step.andThen at h
  split at h
  · cases h
  · next a ha => exact ⟨a, ha, h⟩

/-- The recognised among records that stand from an offset on. -/
def recordMarks (tags : TagSets) (offset : Nat) : List UInt32 → List Mark
  | [] => []
  | r :: rest =>
    match tags.classify r.toUInt8 with
    | some kind => ⟨offset, r >>> 8, kind⟩ :: recordMarks tags (offset + 4) rest
    | none => recordMarks tags (offset + 4) rest

def recordStrays (tags : TagSets) (offset : Nat) : List UInt32 → List StrayTag
  | [] => []
  | r :: rest =>
    match tags.classify r.toUInt8 with
    | some _ => recordStrays tags (offset + 4) rest
    | none => ⟨offset, r.toUInt8, r >>> 8⟩ :: recordStrays tags (offset + 4) rest

theorem readRecords_words (tags : TagSets) (records : List UInt32) (offset : Nat) (rest : Bytes)
    (fault : Option Fault) :
    readRecords tags records.length ⟨offset, records.flatMap Word.bytes ++ rest, fault⟩ =
      ⟨recordStrays tags offset records, ⟨offset + 4 * records.length, rest, fault⟩,
        .ok (recordMarks tags offset records)⟩ := by
  induction records generalizing offset with
  | nil => rfl
  | cons r records ih =>
    have ho : offset + 4 + 4 * records.length = offset + 4 * (r :: records).length := by
      rw [List.length_cons]
      omega
    rw [List.length_cons, readRecords, List.flatMap_cons, List.append_assoc,
      Cursor.next?_bytes_append]
    simp only [ih (offset + 4), ho, recordStrays, recordMarks]
    cases tags.classify r.toUInt8 <;> rfl

theorem readRecords_split {tags : TagSets} {n : Nat} {c : Cursor} {marks : List Mark}
    (h : (readRecords tags n c).result = .ok marks) :
    ∃ (records : List UInt32) (rest : Bytes),
      records.length = n ∧ c.rest = records.flatMap Word.bytes ++ rest := by
  induction n generalizing c marks with
  | zero => exact ⟨[], c.rest, rfl, rfl⟩
  | succ n ih =>
    rw [readRecords] at h
    split at h
    · cases h
    · next r c₁ hn =>
      have hlater : ∃ later, (readRecords tags n c₁).result = .ok later := by
        cases hk : tags.classify r.toUInt8 with
        | none => exact ⟨marks, by simpa only [hk] using h⟩
        | some k =>
          simp only [hk] at h
          cases hr : (readRecords tags n c₁).result with
          | error e => rw [hr] at h; cases h
          | ok later => exact ⟨later, rfl⟩
      obtain ⟨later, hl⟩ := hlater
      obtain ⟨records, rest, rfl, hr⟩ := ih hl
      refine ⟨r :: records, rest, rfl, ?_⟩
      rw [Cursor.rest_of_next? hn, hr, List.flatMap_cons, List.append_assoc]

theorem readArgs_words (args : List UInt32) (offset : Nat) (rest : Bytes)
    (fault : Option Fault) :
    readArgs args.length ⟨offset, args.flatMap Word.bytes ++ rest, fault⟩ =
      ⟨[], ⟨offset + 4 * args.length, rest, fault⟩, .ok args⟩ := by
  induction args generalizing offset with
  | nil => rfl
  | cons v args ih =>
    have ho : offset + 4 + 4 * args.length = offset + 4 * (v :: args).length := by
      rw [List.length_cons]
      omega
    rw [List.length_cons, readArgs, List.flatMap_cons, List.append_assoc,
      Cursor.next?_bytes_append]
    simp only [ih (offset + 4), ho]
    rfl

theorem readArgs_split {n : Nat} {c : Cursor} {args : List UInt32}
    (h : (readArgs n c).result = .ok args) :
    ∃ rest : Bytes, args.length = n ∧ c.rest = args.flatMap Word.bytes ++ rest := by
  induction n generalizing c args with
  | zero =>
    obtain rfl : [] = args := Except.ok.inj h
    exact ⟨c.rest, rfl, rfl⟩
  | succ n ih =>
    rw [readArgs] at h
    split at h
    · cases h
    · next v c₁ hn =>
      cases hr : (readArgs n c₁).result with
      | error e => simp only [hr] at h; cases h
      | ok later =>
        simp only [hr] at h
        obtain rfl : v :: later = args := Except.ok.inj h
        obtain ⟨rest, rfl, hc⟩ := ih hr
        refine ⟨rest, rfl, ?_⟩
        rw [Cursor.rest_of_next? hn, hc, List.flatMap_cons, List.append_assoc]

theorem readBlock_words (tags : TagSets) (records : List UInt32) (op : Opcode)
    (hl : records.length < UInt32.size) (offset : Nat) (rest : Bytes) (fault : Option Fault) :
    readBlock tags ⟨offset, (UInt32.ofNat records.length :: (records ++ [op.word])).flatMap
        Word.bytes ++ rest, fault⟩ =
      ⟨recordStrays tags (offset + 4) records, ⟨offset + 4 * (records.length + 2), rest, fault⟩,
        .ok (op, recordMarks tags (offset + 4) records)⟩ := by
  have hn : (UInt32.ofNat records.length).toNat = records.length :=
    UInt32.toNat_ofNat_of_lt' hl
  have ho : offset + 4 + 4 * records.length + 4 = offset + 4 * (records.length + 2) := by omega
  have hr := readRecords_words tags records (offset + 4) (Word.bytes op.word ++ rest) fault
  rw [readBlock]
  simp only [List.flatMap_cons, List.flatMap_append, List.flatMap_nil, List.append_nil,
    List.append_assoc, Cursor.next?_bytes_append, hn, hr, Step.andThen_ok, Step.done, ho]

theorem readBlock_split {tags : TagSets} {c : Cursor} {op : Opcode} {marks : List Mark}
    (h : (readBlock tags c).result = .ok (op, marks)) :
    ∃ (records : List UInt32) (rest : Bytes), records.length < UInt32.size ∧
      c.rest = (UInt32.ofNat records.length :: (records ++ [op.word])).flatMap Word.bytes ++
        rest := by
  unfold readBlock at h
  split at h
  · cases h
  · next count c₁ hn =>
    obtain ⟨marks', hm, hw⟩ := Step.andThen_eq_ok h
    obtain ⟨records, rest, hl, hr⟩ := readRecords_split hm
    have hc := Cursor.rest_of_next? hn
    obtain ⟨offset, data, fault⟩ := c₁
    obtain rfl : data = records.flatMap Word.bytes ++ rest := hr
    rw [← hl, readRecords_words] at hw
    split at hw
    · cases hw
    · next w c₃ hn₃ =>
      obtain ⟨rfl, rfl⟩ : Opcode.mk w = op ∧ marks' = marks :=
        Prod.mk.injEq .. ▸ Except.ok.inj hw
      have hcount : UInt32.ofNat records.length = count := by rw [hl, UInt32.ofNat_toNat]
      have hrest : rest = Word.bytes w ++ c₃.rest := Cursor.rest_of_next? hn₃
      refine ⟨records, c₃.rest, hl ▸ count.toNat_lt, ?_⟩
      rw [hc, hrest, hcount]
      simp only [List.flatMap_cons, List.flatMap_append, List.flatMap_nil, List.append_nil,
        List.append_assoc]

theorem badMark?_eq_none_iff {tags : TagSets} {records : List UInt32} (offset : Nat)
    {argCount : Nat} :
    badMark? (recordMarks tags offset records) argCount = none ↔
      ∀ r ∈ records, (tags.classify r.toUInt8).isSome → (r >>> 8).toNat < argCount := by
  induction records generalizing offset with
  | nil => simp [badMark?, recordMarks]
  | cons r records ih =>
    rw [List.forall_mem_cons, ← ih (offset + 4), recordMarks]
    cases tags.classify r.toUInt8 <;> simp [badMark?]

namespace Item

def marks (tags : TagSets) (offset : Nat) (i : Item) : List Mark :=
  recordMarks tags (offset + 4) i.records

def strays (tags : TagSets) (offset : Nat) (i : Item) : List StrayTag :=
  recordStrays tags (offset + 4) i.records

theorem badMark?_marks {tags : TagSets} {i : Item} {offset : Nat} :
    badMark? (i.marks tags offset) i.opcode.argCount = none ↔ i.Indexed tags :=
  badMark?_eq_none_iff (offset + 4)

end Item

def readLead (tags : TagSets) (w : UInt32) (c : Cursor) : Step (Opcode × List Mark) :=
  if w = blockMark then readBlock tags c else .done c (⟨w⟩, [])

theorem readItem_eq (tags : TagSets) (w : UInt32) (c : Cursor) :
    readItem tags w c = (readLead tags w c).andThen fun p c₁ =>
      (readOperands p.1 p.2 c₁).andThen fun args c₂ => .done c₂ (p.1, p.2, args) := rfl

theorem readLead_words (tags : TagSets) {i : Item} (hi : i.Framed) (offset : Nat) (rest : Bytes)
    (fault : Option Fault) :
    readLead tags i.lead ⟨offset, i.tail.flatMap Word.bytes ++ rest, fault⟩ =
      ⟨i.strays tags offset,
        ⟨offset + 4 * (i.tail.length - i.args.length), i.args.flatMap Word.bytes ++ rest, fault⟩,
        .ok (i.opcode, i.marks tags offset)⟩ := by
  cases i with
  | bare op args =>
    have hne : op.word ≠ blockMark := hi.1
    simp [readLead, Item.lead, hne, Item.tail, Item.args, Item.opcode, Item.marks, Item.strays,
      Item.records, recordMarks, recordStrays, Step.done]
  | marked records op args =>
    have hb := readBlock_words tags records op hi.1 offset (args.flatMap Word.bytes ++ rest)
      fault
    have ho : (records ++ op.word :: args).length + 1 - args.length = records.length + 2 := by
      rw [List.length_append, List.length_cons]
      omega
    simp only [List.flatMap_cons, List.flatMap_append, List.flatMap_nil, List.append_nil,
      List.append_assoc] at hb
    simp only [readLead, Item.lead, if_true, Item.tail, List.flatMap_cons, List.flatMap_append,
      List.append_assoc, hb, Item.args, List.length_cons, ho]
    rfl

theorem readOperands_words {tags : TagSets} {i : Item} (hi : i.Valid tags)
    (offset offset' : Nat) (rest : Bytes) (fault : Option Fault) :
    readOperands i.opcode (i.marks tags offset)
        ⟨offset', i.args.flatMap Word.bytes ++ rest, fault⟩ =
      ⟨[], ⟨offset' + 4 * i.args.length, rest, fault⟩, .ok i.args⟩ := by
  rw [readOperands, Item.badMark?_marks.mpr hi.2, ← Item.length_args hi.1]
  exact readArgs_words i.args offset' rest fault

theorem readItem_words {tags : TagSets} {i : Item} (hi : i.Valid tags) (offset : Nat)
    (rest : Bytes) (fault : Option Fault) :
    readItem tags i.lead ⟨offset, i.tail.flatMap Word.bytes ++ rest, fault⟩ =
      ⟨i.strays tags offset, ⟨offset + 4 * i.tail.length, rest, fault⟩,
        .ok (i.opcode, i.marks tags offset, i.args)⟩ := by
  have hl : i.args.length ≤ i.tail.length := by
    cases i with
    | bare op args => exact Nat.le_refl _
    | marked records op args =>
      simp only [Item.args, Item.tail, List.length_cons, List.length_append]
      omega
  have ho : offset + 4 * (i.tail.length - i.args.length) + 4 * i.args.length =
      offset + 4 * i.tail.length := by omega
  rw [readItem_eq, readLead_words tags hi.1, Step.andThen_ok, readOperands_words hi,
    Step.andThen_ok, ho]
  simp only [Step.done, List.append_nil]

theorem readOperands_split {op : Opcode} {marks : List Mark} {c : Cursor} {args : List UInt32}
    (h : (readOperands op marks c).result = .ok args) :
    badMark? marks op.argCount = none ∧
      ∃ rest : Bytes, args.length = op.argCount ∧ c.rest = args.flatMap Word.bytes ++ rest := by
  unfold readOperands at h
  split at h
  · cases h
  · next hb => exact ⟨hb, readArgs_split h⟩

/-- Whatever the decoder reads as an item is a valid one. -/
theorem readItem_split {tags : TagSets} {w : UInt32} {c : Cursor}
    {r : Opcode × List Mark × List UInt32} (hw : w ≠ endMark)
    (h : (readItem tags w c).result = .ok r) :
    ∃ (i : Item) (rest : Bytes), i.Valid tags ∧ i.lead = w ∧
      c.rest = i.tail.flatMap Word.bytes ++ rest := by
  rw [readItem_eq] at h
  obtain ⟨⟨op, marks⟩, hlead, hr⟩ := Step.andThen_eq_ok h
  obtain ⟨args, hargs, -⟩ := Step.andThen_eq_ok hr
  obtain ⟨hbad, rest, hl, hc⟩ := readOperands_split hargs
  unfold readLead at hlead hc
  by_cases hm : w = blockMark
  · simp only [if_pos hm] at hlead hc
    obtain ⟨records, more, hn, hrest⟩ := readBlock_split hlead
    obtain ⟨offset, data, fault⟩ := c
    obtain rfl := hrest
    rw [readBlock_words tags records op hn] at hlead hc
    obtain ⟨-, rfl⟩ := Prod.mk.injEq .. ▸ Except.ok.inj hlead
    obtain rfl : more = args.flatMap Word.bytes ++ rest := hc
    refine ⟨.marked records op args, rest, ⟨⟨hn, hl⟩, ?_⟩, hm.symm, ?_⟩
    · exact (badMark?_eq_none_iff _).mp hbad
    · simp only [Item.tail, List.flatMap_cons, List.flatMap_append, List.flatMap_nil,
        List.append_nil, List.append_assoc]
  · simp only [if_neg hm] at hlead hc
    obtain ⟨rfl, rfl⟩ := Prod.mk.injEq .. ▸ Except.ok.inj hlead
    exact ⟨.bare ⟨w⟩ args, rest, ⟨⟨hm, hw, hl⟩, fun r hr => absurd hr List.not_mem_nil⟩, rfl, hc⟩

theorem mem_recordMarks {tags : TagSets} (offset : Nat) {records : List UInt32} {n : Nat}
    {k : PointerKind} :
    (∃ m ∈ recordMarks tags offset records, m.index.toNat = n ∧ m.kind = k) ↔
      ∃ r ∈ records, (r >>> 8).toNat = n ∧ tags.classify r.toUInt8 = some k := by
  induction records generalizing offset with
  | nil => simp [recordMarks]
  | cons r records ih =>
    rw [recordMarks]
    cases hk : tags.classify r.toUInt8 with
    | none => simp [hk, ih]
    | some k' => simp [hk, ih]

theorem TagSets.classify_eq_stringRef {tags : TagSets} {tag : UInt8} :
    tags.classify tag = some .stringRef ↔ tag ∈ tags.string := by
  unfold TagSets.classify
  split
  · simp_all
  · split <;> simp_all [PointerKind.stringRef, PointerKind.streamPointer]

theorem TagSets.classify_eq_streamPointer {tags : TagSets} {tag : UInt8} :
    tags.classify tag = some .streamPointer ↔ tag ∉ tags.string ∧ tag ∈ tags.pointer := by
  unfold TagSets.classify
  split
  · simp_all [PointerKind.stringRef, PointerKind.streamPointer]
  · split <;> simp_all

theorem TagSets.classify_eq_none {tags : TagSets} {tag : UInt8} :
    tags.classify tag = none ↔ tag ∉ tags.string ∧ tag ∉ tags.pointer := by
  unfold TagSets.classify
  split
  · simp_all
  · split <;> simp_all

theorem TagSets.classify_cases {tags : TagSets} {tag : UInt8} {k : PointerKind}
    (h : tags.classify tag = some k) : k = .stringRef ∨ k = .streamPointer := by
  unfold TagSets.classify at h
  split at h
  · exact .inl (Option.some.inj h).symm
  · split at h
    · exact .inr (Option.some.inj h).symm
    · cases h

def TagSets.Recognises (tags : TagSets) (record : UInt32) : Prop :=
  record.toUInt8 ∈ tags.string ∨ record.toUInt8 ∈ tags.pointer

instance (tags : TagSets) (record : UInt32) : Decidable (tags.Recognises record) :=
  inferInstanceAs (Decidable (_ ∨ _))

theorem TagSets.isSome_classify_iff (tags : TagSets) (record : UInt32) :
    (tags.classify record.toUInt8).isSome ↔ tags.Recognises record := by
  unfold TagSets.classify TagSets.Recognises
  split
  · simp_all
  · split <;> simp_all

/-- The first record of an argument decides, unless a later one is a string record. -/
theorem kindAt_recordMarks (tags : TagSets) (offset : Nat) (records : List UInt32) (n : Nat) :
    kindAt (recordMarks tags offset records) n = recordKind tags records n := by
  unfold kindAt recordKind
  have hs : ((recordMarks tags offset records).filter fun m => m.index.toNat = n).any
      (fun m => m.kind = .stringRef) ↔
      ∃ r ∈ records, (r >>> 8).toNat = n ∧ r.toUInt8 ∈ tags.string := by
    simp only [List.any_filter, List.any_eq_true, Bool.and_eq_true, decide_eq_true_eq,
      mem_recordMarks, TagSets.classify_eq_stringRef]
  simp only [hs, List.any_eq_true, decide_eq_true_eq]
  split
  · rfl
  · next hno =>
    -- No mark of the argument is a string reference, so its marks are all of one kind.
    cases hh : (recordMarks tags offset records).filter fun m => m.index.toNat = n with
    | nil =>
      have hp : ¬ ∃ r ∈ records, (r >>> 8).toNat = n ∧ r.toUInt8 ∈ tags.pointer := by
        rintro ⟨r, hr, hn, ht⟩
        have hk : tags.classify r.toUInt8 = some .streamPointer :=
          TagSets.classify_eq_streamPointer.mpr ⟨fun hm => hno ⟨r, hr, hn, hm⟩, ht⟩
        obtain ⟨m, hm, hi, -⟩ := (mem_recordMarks offset).mpr ⟨r, hr, hn, hk⟩
        have hf : m ∈ (recordMarks tags offset records).filter fun m => m.index.toNat = n :=
          List.mem_filter.mpr ⟨hm, decide_eq_true hi⟩
        rw [hh] at hf
        exact List.not_mem_nil hf
      rw [if_neg hp]
      rfl
    | cons m rest =>
      have hf : m ∈ (recordMarks tags offset records).filter fun m => m.index.toNat = n := by
        rw [hh]
        exact List.mem_cons_self
      obtain ⟨hm, hi⟩ := List.mem_filter.mp hf
      obtain ⟨r, hr, hn, hk⟩ := (mem_recordMarks offset).mp ⟨m, hm, of_decide_eq_true hi, rfl⟩
      rcases TagSets.classify_cases hk with he | he
      · rw [he] at hk
        exact absurd ⟨r, hr, hn, TagSets.classify_eq_stringRef.mp hk⟩ hno
      · rw [he] at hk
        rw [if_pos ⟨r, hr, hn, (TagSets.classify_eq_streamPointer.mp hk).2⟩, ← he]
        rfl

theorem length_filterMap_map {α β : Type} (l : List Nat) (f : Nat → Option α) (g : Nat → α → β) :
    (l.filterMap fun n => (f n).map (g n)).length = l.countP fun n => (f n).isSome := by
  induction l with
  | nil => rfl
  | cons n l ih =>
    cases hf : f n <;> simp [hf, ih]

theorem push_marks (tags : TagSets) (here offset : Nat) (i : Item) (rest : List Item) :
    Body.push here i.opcode (i.marks tags offset) i.args (bodyOf tags (here + i.size) rest) =
      bodyOf tags here (i :: rest) := by
  simp only [Body.push, Item.marks, kindAt_recordMarks, bodyOf, Item.code, Item.instruction,
    Item.pointers, Item.kind, length_filterMap_map, List.flatMap_cons, List.append_assoc]
  rfl

def bodyStrays (tags : TagSets) (offset : Nat) : List Item → List StrayTag
  | [] => []
  | i :: rest =>
    i.strays tags (offset + 4) ++ bodyStrays tags (offset + 4 * i.words.length) rest

theorem readBody_of_next? {tags : TagSets} {c c₁ : Cursor} {w : UInt32} (here : Nat)
    (h : c.next? = some (w, c₁)) :
    readBody tags c here =
      if w = endMark then .done c₁ {}
      else (readItem tags w c₁).andThen fun p c₂ =>
        let later := readBody tags c₂ (here + 4 * (1 + p.1.argCount))
        { later with result := later.result.map (Body.push here p.1 p.2.1 p.2.2) } := by
  rw [readBody]
  split
  · next hn => rw [h] at hn; cases hn
  · next w' c' hn =>
    rw [h] at hn
    obtain ⟨rfl, rfl⟩ := Prod.mk.injEq .. ▸ Option.some.inj hn
    dsimp only [Step.andThen]
    cases (readItem tags w c₁).result <;> rfl

theorem readBody_item {tags : TagSets} {i : Item} (hi : i.Valid tags) (offset here : Nat)
    (rest : Bytes) (fault : Option Fault) :
    readBody tags ⟨offset, i.words.flatMap Word.bytes ++ rest, fault⟩ here =
      let later := readBody tags ⟨offset + 4 * i.words.length, rest, fault⟩ (here + i.size)
      ⟨i.strays tags (offset + 4) ++ later.strays, later.cursor,
        later.result.map (Body.push here i.opcode (i.marks tags (offset + 4)) i.args)⟩ := by
  have hn : (⟨offset, i.words.flatMap Word.bytes ++ rest, fault⟩ : Cursor).next? =
      some (i.lead, ⟨offset + 4, i.tail.flatMap Word.bytes ++ rest, fault⟩) := by
    rw [Item.words, List.flatMap_cons, List.append_assoc, Cursor.next?_bytes_append]
  have ho : offset + 4 + 4 * i.tail.length = offset + 4 * i.words.length := by
    rw [Item.words, List.length_cons]
    omega
  rw [readBody_of_next? here hn, if_neg (Item.lead_ne_endMark hi.1), readItem_words hi,
    Step.andThen_ok, ho]
  rfl

theorem readBody_words {tags : TagSets} {items : List Item} (hi : ∀ i ∈ items, i.Valid tags)
    (offset here : Nat) (rest : Bytes) (fault : Option Fault) :
    readBody tags ⟨offset, (items.flatMap Item.words).flatMap Word.bytes ++
        (Word.bytes endMark ++ rest), fault⟩ here =
      ⟨bodyStrays tags offset items,
        ⟨offset + 4 * ((items.flatMap Item.words).length + 1), rest, fault⟩,
        .ok (bodyOf tags here items)⟩ := by
  induction items generalizing offset here with
  | nil =>
    have hn := Cursor.next?_bytes_append offset endMark rest fault
    exact (readBody_of_next? here hn).trans (if_pos rfl)
  | cons i items ih =>
    rw [List.forall_mem_cons] at hi
    have hlen : offset + 4 * i.words.length + 4 * ((items.flatMap Item.words).length + 1) =
        offset + 4 * ((i.words ++ items.flatMap Item.words).length + 1) := by
      rw [List.length_append]
      omega
    rw [List.flatMap_cons, List.flatMap_append, List.append_assoc, readBody_item hi.1, ih hi.2,
      ← push_marks tags here (offset + 4), ← hlen]
    rfl

theorem readBody_of_next?_none {tags : TagSets} {c : Cursor} (here : Nat) (h : c.next? = none) :
    readBody tags c here = .stop c .instruction := by
  rw [readBody]
  split
  · rfl
  · next hn => rw [h] at hn; cases hn

theorem exists_item {tags : TagSets} {c c₁ : Cursor} {w : UInt32}
    {r : Opcode × List Mark × List UInt32} (hn : c.next? = some (w, c₁)) (hw : w ≠ endMark)
    (h : (readItem tags w c₁).result = .ok r) :
    ∃ (i : Item) (rest : Bytes), i.Valid tags ∧
      c = ⟨c.offset, i.words.flatMap Word.bytes ++ rest, c.fault⟩ ∧
        rest.length < c.rest.length := by
  obtain ⟨i, rest, hi, rfl, hrest⟩ := readItem_split hw h
  obtain ⟨hc, -⟩ := Cursor.eq_of_next? hn
  have hwords : Word.bytes i.lead ++ c₁.rest = i.words.flatMap Word.bytes ++ rest := by
    rw [hrest, Item.words, List.flatMap_cons, List.append_assoc]
  rw [hwords] at hc
  refine ⟨i, rest, hi, hc, ?_⟩
  rw [hc, List.length_append, Word.length_flatMap_bytes, Item.words, List.length_cons]
  omega

/-- Whatever the decoder reads as a stream is valid items and an end mark. -/
theorem readBody_split {tags : TagSets} {c : Cursor} {here : Nat} {b : Body}
    (h : (readBody tags c here).result = .ok b) :
    ∃ (items : List Item) (rest : Bytes), (∀ i ∈ items, i.Valid tags) ∧
      c.rest = (items.flatMap Item.words).flatMap Word.bytes ++ (Word.bytes endMark ++ rest) := by
  -- The stream goes on wherever an item ended, so the induction is on the bytes that are left.
  induction hl : c.rest.length using Nat.strongRecOn generalizing c here b with
  | ind n ih =>
    cases hn : c.next? with
    | none =>
      rw [readBody_of_next?_none here hn] at h
      cases h
    | some p =>
      obtain ⟨w, c₁⟩ := p
      by_cases hw : w = endMark
      · subst hw
        exact ⟨[], c₁.rest, fun i hi => absurd hi List.not_mem_nil, Cursor.rest_of_next? hn⟩
      · have hstep := h
        rw [readBody_of_next? here hn, if_neg hw] at hstep
        obtain ⟨r, hr, -⟩ := Step.andThen_eq_ok hstep
        obtain ⟨i, rest, hi, hc, hlt⟩ := exists_item hn hw hr
        rw [hc, readBody_item hi] at h
        cases hb : (readBody tags ⟨c.offset + 4 * i.words.length, rest, c.fault⟩
            (here + i.size)).result with
        | error e =>
          dsimp only at h
          rw [hb] at h
          cases h
        | ok later =>
          obtain ⟨items, more, hv, hm⟩ := ih rest.length (hl ▸ hlt) hb rfl
          have hrest : rest = _ := hm
          refine ⟨i :: items, more, List.forall_mem_cons.mpr ⟨hi, hv⟩, ?_⟩
          rw [hc, hrest, List.flatMap_cons, List.flatMap_append, List.append_assoc]

theorem readHeader_words (h : Header) (offset : Nat) (rest : Bytes) (fault : Option Fault) :
    readHeader ⟨offset, [h.index, h.start, h.assets].flatMap Word.bytes ++ rest, fault⟩ =
      (h, ⟨offset + 12, rest, fault⟩, none) := by
  simp only [readHeader, List.flatMap_cons, List.flatMap_nil, List.append_nil, List.append_assoc,
    Cursor.next?_bytes_append]

theorem readHeader_split {c d : Cursor} {h : Header} (hr : readHeader c = (h, d, none)) :
    c.rest = [h.index, h.start, h.assets].flatMap Word.bytes ++ d.rest := by
  unfold readHeader at hr
  split at hr
  · cases hr
  · next index c₁ h₁ =>
    split at hr
    · cases hr
    · next start c₂ h₂ =>
      split at hr
      · cases hr
      · next assets c₃ h₃ =>
        cases hr
        rw [Cursor.rest_of_next? h₁, Cursor.rest_of_next? h₂, Cursor.rest_of_next? h₃]
        simp only [List.flatMap_cons, List.flatMap_nil, List.append_nil, List.append_assoc]

def Listing.stop (l : Listing) : Nat := 12 + 4 * ((l.items.flatMap Item.words).length + 1)

theorem decode_header (tags : TagSets) (h : Header) (rest : Bytes) (fault : Option Fault) :
    decode tags ⟨[h.index, h.start, h.assets].flatMap Word.bytes ++ rest, fault⟩ =
      (readBody tags ⟨12, rest, fault⟩ 0).andThen (readStrings h) := by
  rw [decode, Cursor.ofSource, readHeader_words]

theorem decode_listing {tags : TagSets} {l : Listing} (hl : l.Valid tags)
    (fault : Option Fault) :
    decode tags ⟨l.bytes, fault⟩ =
      (⟨bodyStrays tags 12 l.items, ⟨l.stop, l.strings, fault⟩,
        .ok (bodyOf tags 0 l.items)⟩ : Step Body).andThen (readStrings l.header) := by
  rw [Listing.bytes, List.append_assoc, List.append_assoc, decode_header, readBody_words hl]
  rfl

theorem decode_words {tags : TagSets} {l : Listing} (hl : l.Valid tags) :
    (decode tags ⟨l.bytes, none⟩).result = .ok (l.program tags) := by
  rw [decode_listing hl]
  rfl

theorem decode_split {tags : TagSets} {data : Bytes} {fault : Option Fault} {p : Program}
    (h : (decode tags ⟨data, fault⟩).result = .ok p) :
    ∃ l : Listing, l.Valid tags ∧ l.bytes = data := by
  unfold decode at h
  split at h
  · cases h
  · next header c hr =>
    obtain ⟨b, hb, -⟩ := Step.andThen_eq_ok h
    obtain ⟨items, strings, hi, hc⟩ := readBody_split hb
    refine ⟨⟨header, items, strings⟩, hi, ?_⟩
    have hd := readHeader_split hr
    rw [hc] at hd
    rw [Listing.bytes, List.append_assoc, List.append_assoc]
    exact hd.symm

theorem decode_eq_ok_iff {tags : TagSets} {data : Bytes} {p : Program} :
    (decode tags ⟨data, none⟩).result = .ok p ↔
      ∃ l : Listing, l.Valid tags ∧ l.bytes = data ∧ l.program tags = p := by
  constructor
  · intro h
    obtain ⟨l, hl, rfl⟩ := decode_split h
    rw [decode_words hl] at h
    exact ⟨l, hl, rfl, Except.ok.inj h⟩
  · rintro ⟨l, hl, rfl, rfl⟩
    exact decode_words hl

theorem fault_of_decode {tags : TagSets} {s : Source} {p : Program}
    (h : (decode tags s).result = .ok p) : s.fault = none := by
  obtain ⟨data, fault⟩ := s
  obtain ⟨l, hl, rfl⟩ := decode_split h
  rw [decode_listing hl] at h
  cases fault with
  | none => rfl
  | some f => cases h

theorem flow_bodyOf (tags : TagSets) (here : Nat) (items : List Item) :
    (bodyOf tags here items).flow = (items.flatMap Item.code).flatMap Word.bytes := by
  induction items generalizing here with
  | nil => rfl
  | cons i items ih => rw [bodyOf, ih, List.flatMap_cons, List.flatMap_append]

theorem instructions_bodyOf (tags : TagSets) (here : Nat) (items : List Item) :
    (bodyOf tags here items).instructions.map (fun i => (i.opcode, i.args)) =
      items.map fun i => (i.opcode, i.args) := by
  induction items generalizing here with
  | nil => rfl
  | cons i items ih => rw [bodyOf, List.map_cons, ih]; rfl

/-- A byte string is decoded if and only if it is a header, valid items, an end mark and string
data. There is one way to see it so, and it says what is returned. -/
theorem decode_accepts_grammar (tags : TagSets) (data : Bytes) :
    ((∃ p, (decode tags ⟨data, none⟩).result = .ok p) ↔
        ∃ l : Listing, l.Valid tags ∧ l.bytes = data) ∧
      (∀ l m : Listing, l.Valid tags → m.Valid tags → l.bytes = data → m.bytes = data → l = m) ∧
      ∀ (p : Program) (l : Listing), (decode tags ⟨data, none⟩).result = .ok p →
        l.Valid tags → l.bytes = data →
          p.header = l.header ∧
          p.instructions.map (fun i => (i.opcode, i.args)) =
            l.items.map (fun i => (i.opcode, i.args)) ∧
          p.flow = (l.items.flatMap Item.code).flatMap Word.bytes ∧
          p.strings = l.strings := by
  refine ⟨⟨?_, ?_⟩, ?_, ?_⟩
  · rintro ⟨p, hp⟩
    exact decode_split hp
  · rintro ⟨l, hl, rfl⟩
    exact ⟨l.program tags, decode_words hl⟩
  · intro l m hl hm hb hb'
    exact Listing.eq_of_bytes_eq (fun i hi => (hl i hi).1) (fun i hi => (hm i hi).1)
      (hb.trans hb'.symm)
  · rintro p l hp hl rfl
    rw [decode_words hl] at hp
    obtain rfl := Except.ok.inj hp
    exact ⟨rfl, instructions_bodyOf tags 0 l.items, flow_bodyOf tags 0 l.items, rfl⟩

end FlowPack.Script
