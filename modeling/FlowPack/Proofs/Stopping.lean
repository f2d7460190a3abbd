import FlowPack.Proofs.Decoding

namespace FlowPack.Script

namespace Cursor

/-- The position of the bytes at the end that make no whole word. -/
def brink (c : Cursor) : Cursor :=
  ⟨c.offset + 4 * (c.rest.length / 4), c.rest.drop (4 * (c.rest.length / 4)), c.fault⟩

theorem brink_of_next?_none {c : Cursor} (h : c.next? = none) : c.brink = c := by
  have hl : c.rest.length < 4 := Word.take?_eq_none_iff.mp (Option.map_eq_none_iff.mp h)
  have hd : c.rest.length / 4 = 0 := Nat.div_eq_of_lt hl
  rw [brink, hd]
  rfl

section Words

variable (offset : Nat) (ws : List UInt32) (rest : Bytes) (fault : Option Fault)

theorem brink_words :
    (⟨offset, ws.flatMap Word.bytes ++ rest, fault⟩ : Cursor).brink =
      (⟨offset + 4 * ws.length, rest, fault⟩ : Cursor).brink := by
  have hlen : (ws.flatMap Word.bytes ++ rest).length = 4 * ws.length + rest.length := by
    rw [List.length_append, Word.length_flatMap_bytes]
  have hdiv : 4 * ((4 * ws.length + rest.length) / 4) = 4 * ws.length + 4 * (rest.length / 4) := by
    omega
  have hdrop : (ws.flatMap Word.bytes ++ rest).drop (4 * ws.length + 4 * (rest.length / 4)) =
      rest.drop (4 * (rest.length / 4)) := by
    rw [← Word.length_flatMap_bytes, List.drop_length_add_append]
  simp only [brink, hlen, hdiv, hdrop, Nat.add_assoc]

theorem drained_words :
    (⟨offset, ws.flatMap Word.bytes ++ rest, fault⟩ : Cursor).drained =
      (⟨offset + 4 * ws.length, rest, fault⟩ : Cursor).drained := by
  simp only [drained, List.length_append, Word.length_flatMap_bytes, Nat.add_assoc]

end Words

end Cursor

namespace Step

theorem andThen_error {α β : Type} (strays : List StrayTag) (c : Cursor) (e : DecodeError)
    (f : α → Cursor → Step β) :
    (⟨strays, c, .error e⟩ : Step α).andThen f = ⟨strays, c, .error e⟩ := rfl

theorem andThen_eq_error {α β : Type} {s : Step α} {f : α → Cursor → Step β} {e : DecodeError}
    (h : (s.andThen f).result = .error e) :
    s.result = .error e ∨ ∃ a, s.result = .ok a ∧ (f a s.cursor).result = .error e := by
  unfold andThen at h
  split at h
  · next e' he =>
    cases h
    exact .inl he
  · next a ha => exact .inr ⟨a, ha, h⟩

/-- The step has taken all bytes from a position on and stopped in want of a whole word. -/
def Starved {α : Type} (s : Step α) (c : Cursor) : Prop :=
  s.cursor = c.drained ∧ ∃ part, s.result = .error (c.brink.shortfall part)

namespace Starved

variable {α β : Type} {s : Step α} {c : Cursor}

theorem of_stop (h : c.next? = none) (part : Part) : (stop c part : Step α).Starved c := by
  refine ⟨rfl, part, ?_⟩
  rw [Cursor.brink_of_next?_none h]
  rfl

theorem of_words {offset : Nat} (ws : List UInt32) {rest : Bytes} {fault : Option Fault}
    (h : s.Starved ⟨offset + 4 * ws.length, rest, fault⟩) :
    s.Starved ⟨offset, ws.flatMap Word.bytes ++ rest, fault⟩ := by
  rwa [Starved, Cursor.brink_words, Cursor.drained_words]

theorem of_next? {d : Cursor} {w : UInt32} (hn : c.next? = some (w, d)) (h : s.Starved d) :
    s.Starved c := by
  obtain ⟨hc, hd⟩ := Cursor.eq_of_next? hn
  rw [hd] at h
  have hw := of_words [w] h
  rwa [List.flatMap_singleton, ← hc] at hw

theorem andThen_left (h : s.Starved c) (f : α → Cursor → Step β) : (s.andThen f).Starved c := by
  obtain ⟨hc, part, he⟩ := h
  have ht : s.andThen f = ⟨s.strays, s.cursor, .error (c.brink.shortfall part)⟩ := by
    rw [andThen, he]
  rw [ht]
  exact ⟨hc, part, rfl⟩

theorem andThen_right {f : α → Cursor → Step β} {a : α} (ha : s.result = .ok a)
    (h : (f a s.cursor).Starved c) : (s.andThen f).Starved c := by
  have ht : s.andThen f =
      ⟨s.strays ++ (f a s.cursor).strays, (f a s.cursor).cursor, (f a s.cursor).result⟩ := by
    rw [andThen, ha]
  rw [ht]
  exact h

theorem map {f : α → β} (h : s.Starved c) (strays : List StrayTag) :
    (⟨strays, s.cursor, s.result.map f⟩ : Step β).Starved c := by
  obtain ⟨hc, part, he⟩ := h
  refine ⟨hc, part, ?_⟩
  rw [he]
  rfl

end Starved

end Step

section Readers

variable {tags : TagSets} {c : Cursor} {e : DecodeError}

theorem readRecords_error {n : Nat} (h : (readRecords tags n c).result = .error e) :
    (readRecords tags n c).Starved c := by
  induction n generalizing c e with
  | zero => cases h
  | succ n ih =>
    rw [readRecords] at h ⊢
    cases hn : c.next? with
    | none => exact .of_stop hn .record
    | some p =>
      obtain ⟨r, c₁⟩ := p
      simp only [hn] at h
      have hlater : (readRecords tags n c₁).Starved c₁ := by
        cases hr : (readRecords tags n c₁).result with
        | error e' => exact ih hr
        | ok later =>
          simp only [hr] at h
          cases hk : tags.classify r.toUInt8 <;> simp only [hk] at h <;> cases h
      apply Step.Starved.of_next? hn
      dsimp only
      cases tags.classify r.toUInt8 with
      | none => exact hlater
      | some k => exact hlater.map _

theorem readArgs_error {n : Nat} (h : (readArgs n c).result = .error e) :
    (readArgs n c).Starved c := by
  induction n generalizing c e with
  | zero => cases h
  | succ n ih =>
    rw [readArgs] at h ⊢
    cases hn : c.next? with
    | none => exact .of_stop hn .argument
    | some p =>
      obtain ⟨v, c₁⟩ := p
      simp only [hn] at h
      have hlater : (readArgs n c₁).Starved c₁ := by
        cases hr : (readArgs n c₁).result with
        | error e' => exact ih hr
        | ok later => simp only [hr] at h; cases h
      exact .of_next? hn (hlater.map _)

theorem readBlock_error (h : (readBlock tags c).result = .error e) :
    (readBlock tags c).Starved c := by
  unfold readBlock at h ⊢
  cases hn : c.next? with
  | none => exact .of_stop hn .recordCount
  | some p =>
    obtain ⟨count, c₁⟩ := p
    simp only [hn] at h
    apply Step.Starved.of_next? hn
    dsimp only
    rcases Step.andThen_eq_error h with hr | ⟨marks, hm, hw⟩
    · exact (readRecords_error hr).andThen_left _
    · obtain ⟨records, rest, hl, hrest⟩ := readRecords_split hm
      obtain ⟨offset, data, fault⟩ := c₁
      obtain rfl : data = records.flatMap Word.bytes ++ rest := hrest
      have hd := readRecords_words tags records offset rest fault
      rw [← hl] at hm hw ⊢
      rw [hd] at hw
      apply Step.Starved.andThen_right hm
      rw [hd]
      apply Step.Starved.of_words records
      cases hn₂ : (⟨offset + 4 * records.length, rest, fault⟩ : Cursor).next? with
      | none => exact .of_stop hn₂ .markedOpcode
      | some q => simp only [hn₂] at hw; cases hw

theorem readLead_error {w : UInt32} (h : (readLead tags w c).result = .error e) :
    (readLead tags w c).Starved c := by
  unfold readLead at h ⊢
  split at h
  · next hw =>
    rw [if_pos hw]
    exact readBlock_error h
  · cases h

theorem readOperands_error {op : Opcode} {marks : List Mark}
    (h : (readOperands op marks c).result = .error e) :
    (readOperands op marks c).Starved c ∨ ∃ m, badMark? marks op.argCount = some m := by
  unfold readOperands at h ⊢
  cases hb : badMark? marks op.argCount with
  | none =>
    rw [hb] at h
    exact .inl (readArgs_error h)
  | some m => exact .inr ⟨m, rfl⟩

end Readers

/-- A block and the opcode behind it. One record is marked out among the others. -/
structure Misfit where
  before : List UInt32
  record : UInt32
  after : List UInt32
  opcode : Opcode
  deriving DecidableEq, Repr

namespace Misfit

def records (b : Misfit) : List UInt32 := b.before ++ b.record :: b.after

def tail (b : Misfit) : List UInt32 :=
  UInt32.ofNat b.records.length :: (b.records ++ [b.opcode.word])

def words (b : Misfit) : List UInt32 := blockMark :: b.tail

/-- The record marked out is the first of the recognised ones that names no argument of the
opcode. -/
structure Valid (tags : TagSets) (b : Misfit) : Prop where
  counted : b.records.length < UInt32.size
  recognised : tags.Recognises b.record
  past : b.opcode.argCount ≤ (b.record >>> 8).toNat
  first : ∀ r ∈ b.before, tags.Recognises r → (r >>> 8).toNat < b.opcode.argCount

end Misfit

theorem recordMarks_append (tags : TagSets) (offset : Nat) (records more : List UInt32) :
    recordMarks tags offset (records ++ more) =
      recordMarks tags offset records ++ recordMarks tags (offset + 4 * records.length) more := by
  induction records generalizing offset with
  | nil => rfl
  | cons r records ih =>
    have ho : offset + 4 + 4 * records.length = offset + 4 * (r :: records).length := by
      rw [List.length_cons]
      omega
    rw [List.cons_append, recordMarks, recordMarks, ih, ho]
    cases tags.classify r.toUInt8 <;> rfl

theorem badMark?_misfit {tags : TagSets} {b : Misfit} (hb : b.Valid tags) (offset : Nat) :
    ∃ k, badMark? (recordMarks tags offset b.records) b.opcode.argCount =
      some ⟨offset + 4 * b.before.length, b.record >>> 8, k⟩ := by
  obtain ⟨k, hk⟩ := Option.isSome_iff_exists.mp
    ((tags.isSome_classify_iff b.record).mpr hb.recognised)
  have hbefore : badMark? (recordMarks tags offset b.before) b.opcode.argCount = none := by
    rw [badMark?_eq_none_iff]
    intro r hr hs
    exact hb.first r hr ((tags.isSome_classify_iff r).mp hs)
  refine ⟨k, ?_⟩
  rw [badMark?] at hbefore ⊢
  rw [Misfit.records, recordMarks_append, List.find?_append, hbefore, recordMarks, hk,
    Option.none_or]
  exact List.find?_cons_of_pos (decide_eq_true hb.past)

theorem exists_misfit {tags : TagSets} {records : List UInt32} {offset : Nat} {op : Opcode}
    {m : Mark} (h : badMark? (recordMarks tags offset records) op.argCount = some m)
    (hl : records.length < UInt32.size) :
    ∃ b : Misfit, b.Valid tags ∧ b.records = records ∧ b.opcode = op := by
  -- Only the split of the records is found by recursion; their number stays that of the block.
  have hsplit : ∃ before r after, records = before ++ r :: after ∧ tags.Recognises r ∧
      op.argCount ≤ (r >>> 8).toNat ∧
      ∀ q ∈ before, tags.Recognises q → (q >>> 8).toNat < op.argCount := by
    clear hl
    induction records generalizing offset with
    | nil => cases h
    | cons r records ih =>
      by_cases hr : tags.Recognises r ∧ op.argCount ≤ (r >>> 8).toNat
      · exact ⟨[], r, records, rfl, hr.1, hr.2, fun q hq => absurd hq List.not_mem_nil⟩
      · have hrest : badMark? (recordMarks tags (offset + 4) records) op.argCount = some m := by
          rw [recordMarks] at h
          cases hk : tags.classify r.toUInt8 with
          | none => rwa [hk] at h
          | some k =>
            have hs : tags.Recognises r := (tags.isSome_classify_iff r).mp (by rw [hk]; rfl)
            simp only [hk, badMark?] at h
            rwa [List.find?_cons_of_neg (by simpa using fun hle => hr ⟨hs, hle⟩)] at h
        obtain ⟨before, q, after, rfl, hq, hpast, hfirst⟩ := ih hrest
        refine ⟨r :: before, q, after, rfl, hq, hpast, ?_⟩
        rw [List.forall_mem_cons]
        exact ⟨fun hs => Nat.lt_of_not_le fun hle => hr ⟨hs, hle⟩, hfirst⟩
  obtain ⟨before, r, after, rfl, hr, hpast, hfirst⟩ := hsplit
  exact ⟨⟨before, r, after, op⟩, ⟨hl, hr, hpast, hfirst⟩, rfl, rfl⟩

theorem readItem_misfit {tags : TagSets} {b : Misfit} (hb : b.Valid tags) (offset : Nat)
    (rest : Bytes) (fault : Option Fault) :
    readItem tags blockMark ⟨offset, b.tail.flatMap Word.bytes ++ rest, fault⟩ =
      ⟨recordStrays tags (offset + 4) b.records,
        ⟨offset + 4 * (b.records.length + 2), rest, fault⟩,
        .error (.badIndex (offset + 4 + 4 * b.before.length) (b.record >>> 8)
          b.opcode.argCount)⟩ := by
  obtain ⟨k, hk⟩ := badMark?_misfit hb (offset + 4)
  have hblock := readBlock_words tags b.records b.opcode hb.counted offset rest fault
  rw [readItem_eq, readLead, if_pos rfl, Misfit.tail, hblock, Step.andThen_ok]
  simp only [readOperands, hk, Step.andThen, List.append_nil]

theorem readOperands_of_readLead {tags : TagSets} {w : UInt32} {c : Cursor} {op : Opcode}
    {marks : List Mark} {e : DecodeError} (hlead : (readLead tags w c).result = .ok (op, marks))
    (h : (readOperands op marks (readLead tags w c).cursor).result = .error e) :
    (readOperands op marks (readLead tags w c).cursor).Starved c ∨
      w = blockMark ∧ ∃ (b : Misfit) (rest : Bytes),
        b.Valid tags ∧ c.rest = b.tail.flatMap Word.bytes ++ rest := by
  unfold readLead at hlead h ⊢
  by_cases hm : w = blockMark
  · simp only [if_pos hm] at hlead h ⊢
    obtain ⟨records, rest, hn, hrest⟩ := readBlock_split hlead
    obtain ⟨offset, data, fault⟩ := c
    obtain rfl := hrest
    rw [readBlock_words tags records op hn] at hlead h ⊢
    obtain ⟨-, rfl⟩ := Prod.mk.injEq .. ▸ Except.ok.inj hlead
    have hlen : records.length + 2 =
        (UInt32.ofNat records.length :: (records ++ [op.word])).length := by simp
    rcases readOperands_error h with hs | ⟨m, hbad⟩
    · left
      rw [hlen] at hs ⊢
      exact .of_words _ hs
    · obtain ⟨b, hb, rfl, rfl⟩ := exists_misfit hbad hn
      exact .inr ⟨hm, b, rest, hb, rfl⟩
  · simp only [if_neg hm] at hlead h ⊢
    obtain ⟨-, rfl⟩ := Prod.mk.injEq .. ▸ Except.ok.inj hlead
    rcases readOperands_error h with hs | ⟨m, hbad⟩
    · exact .inl hs
    · cases hbad

/-- An item that is not read ends too early or is a block that does not fit. -/
theorem readItem_error {tags : TagSets} {w : UInt32} {c : Cursor} {e : DecodeError}
    (h : (readItem tags w c).result = .error e) :
    (readItem tags w c).Starved c ∨ w = blockMark ∧ ∃ (b : Misfit) (rest : Bytes),
      b.Valid tags ∧ c.rest = b.tail.flatMap Word.bytes ++ rest := by
  rw [readItem_eq] at h ⊢
  rcases Step.andThen_eq_error h with hlead | ⟨⟨op, marks⟩, hlead, hr⟩
  · exact .inl ((readLead_error hlead).andThen_left _)
  · have hops : (readOperands op marks (readLead tags w c).cursor).result = .error e := by
      rcases Step.andThen_eq_error hr with ho | ⟨args, -, ho⟩
      · exact ho
      · cases ho
    rcases readOperands_of_readLead hlead hops with hs | hb
    · exact .inl (.andThen_right hlead (hs.andThen_left _))
    · exact .inr hb

theorem readBody_failing {tags : TagSets} {items : List Item} (hi : ∀ i ∈ items, i.Valid tags)
    (offset : Nat) {rest : Bytes} {fault : Option Fault} {strays : List StrayTag} {d : Cursor}
    {e : DecodeError}
    (h : ∀ here, readBody tags ⟨offset + 4 * (items.flatMap Item.words).length, rest, fault⟩ here =
      ⟨strays, d, .error e⟩) (here : Nat) :
    readBody tags ⟨offset, (items.flatMap Item.words).flatMap Word.bytes ++ rest, fault⟩ here =
      ⟨bodyStrays tags offset items ++ strays, d, .error e⟩ := by
  induction items generalizing offset here with
  | nil => exact h here
  | cons i items ih =>
    rw [List.forall_mem_cons] at hi
    have hlen : offset + 4 * ((i :: items).flatMap Item.words).length =
        offset + 4 * i.words.length + 4 * (items.flatMap Item.words).length := by
      rw [List.flatMap_cons, List.length_append]
      omega
    rw [hlen] at h
    have hlater := ih hi.2 (offset + 4 * i.words.length) h
    rw [List.flatMap_cons, List.flatMap_append, List.append_assoc, readBody_item hi.1, hlater,
      bodyStrays, List.append_assoc]
    rfl

theorem readBody_misfit {tags : TagSets} {items : List Item} (hi : ∀ i ∈ items, i.Valid tags)
    {b : Misfit} (hb : b.Valid tags) (offset : Nat) (rest : Bytes) (fault : Option Fault)
    (here : Nat) :
    readBody tags ⟨offset, (items.flatMap Item.words).flatMap Word.bytes ++
        (b.words.flatMap Word.bytes ++ rest), fault⟩ here =
      ⟨bodyStrays tags offset items ++
          recordStrays tags (offset + 4 * (items.flatMap Item.words).length + 8) b.records,
        ⟨offset + 4 * ((items.flatMap Item.words).length + (b.records.length + 3)), rest, fault⟩,
        .error (.badIndex (offset + 4 * ((items.flatMap Item.words).length + (b.before.length + 2)))
          (b.record >>> 8) b.opcode.argCount)⟩ := by
  apply readBody_failing hi
  intro here
  generalize (items.flatMap Item.words).length = n
  have hn : (⟨offset + 4 * n, b.words.flatMap Word.bytes ++ rest, fault⟩ : Cursor).next? =
      some (blockMark, ⟨offset + 4 * n + 4, b.tail.flatMap Word.bytes ++ rest, fault⟩) := by
    rw [Misfit.words, List.flatMap_cons, List.append_assoc, Cursor.next?_bytes_append]
  have h₁ : offset + 4 * n + 4 + 4 * (b.records.length + 2) =
      offset + 4 * (n + (b.records.length + 3)) := by omega
  have h₂ : offset + 4 * n + 4 + 4 + 4 * b.before.length =
      offset + 4 * (n + (b.before.length + 2)) := by omega
  rw [readBody_of_next? here hn, if_neg (by decide), readItem_misfit hb, h₁, h₂,
    Step.andThen_error]

/-- A stream that is not read ends too early or has a block that does not fit. -/
theorem readBody_error {tags : TagSets} {c : Cursor} {here : Nat} {e : DecodeError}
    (h : (readBody tags c here).result = .error e) :
    (readBody tags c here).Starved c ∨ ∃ (items : List Item) (b : Misfit) (rest : Bytes),
      (∀ i ∈ items, i.Valid tags) ∧ b.Valid tags ∧
        c.rest = (items.flatMap Item.words).flatMap Word.bytes ++
          (b.words.flatMap Word.bytes ++ rest) := by
  -- As for a stream that is read, the induction is on the bytes that are left.
  induction hl : c.rest.length using Nat.strongRecOn generalizing c here e with
  | ind n ih =>
    cases hn : c.next? with
    | none =>
      rw [readBody_of_next?_none here hn]
      exact .inl (.of_stop hn .instruction)
    | some p =>
      obtain ⟨w, c₁⟩ := p
      by_cases hw : w = endMark
      · rw [readBody_of_next? here hn, if_pos hw] at h
        cases h
      · cases hitem : (readItem tags w c₁).result with
        | error e' =>
          rw [readBody_of_next? here hn, if_neg hw]
          rcases readItem_error hitem with hs | ⟨hm, b, rest, hb, hrest⟩
          · exact .inl (.of_next? hn (hs.andThen_left _))
          · refine .inr ⟨[], b, rest, fun i hi => absurd hi List.not_mem_nil, hb, ?_⟩
            rw [Cursor.rest_of_next? hn, hrest, hm, Misfit.words, List.flatMap_cons,
              List.append_assoc, List.flatMap_nil, List.flatMap_nil, List.nil_append]
        | ok r =>
          obtain ⟨i, rest, hi, hc, hlt⟩ := exists_item hn hw hitem
          rw [hc, readBody_item hi] at h ⊢
          cases hb : (readBody tags ⟨c.offset + 4 * i.words.length, rest, c.fault⟩
              (here + i.size)).result with
          | ok later =>
            dsimp only at h
            rw [hb] at h
            cases h
          | error e' =>
            rcases ih rest.length (hl ▸ hlt) hb rfl with hs | ⟨items, b, more, hv, hb, hm⟩
            · exact .inl (.of_words i.words (hs.map _))
            · have hrest : rest = _ := hm
              refine .inr ⟨i :: items, b, more, List.forall_mem_cons.mpr ⟨hi, hv⟩, hb, ?_⟩
              rw [hrest, List.flatMap_cons, List.flatMap_append, List.append_assoc]

theorem readHeader_error {α : Type} {c d : Cursor} {header : Header} {e : DecodeError}
    (h : readHeader c = (header, d, some e)) : (⟨[], d, .error e⟩ : Step α).Starved c := by
  unfold readHeader at h
  cases h₁ : c.next? with
  | none =>
    simp only [h₁] at h
    cases h
    exact .of_stop h₁ .headerIndex
  | some p =>
    obtain ⟨index, c₁⟩ := p
    simp only [h₁] at h
    apply Step.Starved.of_next? h₁
    cases h₂ : c₁.next? with
    | none =>
      simp only [h₂] at h
      cases h
      exact .of_stop h₂ .headerStart
    | some p =>
      obtain ⟨start, c₂⟩ := p
      simp only [h₂] at h
      apply Step.Starved.of_next? h₂
      cases h₃ : c₂.next? with
      | none =>
        simp only [h₃] at h
        cases h
        exact .of_stop h₃ .headerAssets
      | some p =>
        simp only [h₃] at h
        cases h

theorem length_opening (h : Header) (items : List Item) :
    ([h.index, h.start, h.assets].flatMap Word.bytes ++
      (items.flatMap Item.words).flatMap Word.bytes).length =
        12 + 4 * (items.flatMap Item.words).length := by
  rw [List.length_append, Word.length_flatMap_bytes, Word.length_flatMap_bytes]
  rfl

/-- A script up to a block that does not fit, and whatever follows. -/
structure Spoilt where
  header : Header
  items : List Item
  block : Misfit
  rest : Bytes
  deriving DecidableEq, Repr

namespace Spoilt

def bytes (s : Spoilt) : Bytes :=
  [s.header.index, s.header.start, s.header.assets].flatMap Word.bytes ++
    ((s.items.flatMap Item.words).flatMap Word.bytes ++
      (s.block.words.flatMap Word.bytes ++ s.rest))

def start (s : Spoilt) : Nat := 12 + 4 * (s.items.flatMap Item.words).length

def recordOffset (s : Spoilt) : Nat := s.start + 4 * (s.block.before.length + 2)

def opcodeOffset (s : Spoilt) : Nat := s.start + 4 * (s.block.records.length + 2)

structure Valid (tags : TagSets) (s : Spoilt) : Prop where
  items : ∀ i ∈ s.items, i.Valid tags
  block : s.block.Valid tags

theorem at?_word {s : Spoilt} {m : Nat} {w : UInt32} (h : s.block.words[m]? = some w) :
    Word.at? s.bytes (s.start + 4 * m) = some w := by
  rw [bytes, start, ← List.append_assoc, ← length_opening s.header]
  exact Word.at?_flatMap_bytes _ _ h

theorem at?_record (s : Spoilt) : Word.at? s.bytes s.recordOffset = some s.block.record := by
  apply at?_word
  simp [Misfit.words, Misfit.tail, Misfit.records]

theorem at?_opcode (s : Spoilt) : Word.at? s.bytes s.opcodeOffset = some s.block.opcode.word := by
  apply at?_word
  simp [Misfit.words, Misfit.tail]

end Spoilt

theorem decode_spoilt {tags : TagSets} {s : Spoilt} (hs : s.Valid tags) (fault : Option Fault) :
    decode tags ⟨s.bytes, fault⟩ =
      ⟨bodyStrays tags 12 s.items ++ recordStrays tags (s.start + 8) s.block.records,
        ⟨s.opcodeOffset + 4, s.rest, fault⟩,
        .error (.badIndex s.recordOffset (s.block.record >>> 8) s.block.opcode.argCount)⟩ := by
  have h₁ : 12 + 4 * ((s.items.flatMap Item.words).length + (s.block.records.length + 3)) =
      s.opcodeOffset + 4 := by
    rw [Spoilt.opcodeOffset, Spoilt.start]
    omega
  have h₂ : 12 + 4 * ((s.items.flatMap Item.words).length + (s.block.before.length + 2)) =
      s.recordOffset := by
    rw [Spoilt.recordOffset, Spoilt.start]
    omega
  rw [Spoilt.bytes, decode_header, readBody_misfit hs.items hs.block, h₁, h₂, Step.andThen_error]
  rfl

theorem decode_error {tags : TagSets} {data : Bytes} {e : DecodeError}
    (h : (decode tags ⟨data, none⟩).result = .error e) :
    (decode tags ⟨data, none⟩).Starved ⟨0, data, none⟩ ∨
      ∃ s : Spoilt, s.Valid tags ∧ s.bytes = data := by
  cases hr : readHeader (.ofSource ⟨data, none⟩) with
  | mk header p =>
    obtain ⟨c, failure⟩ := p
    cases failure with
    | some e' =>
      have hd : decode tags ⟨data, none⟩ = ⟨[], c, .error e'⟩ := by rw [decode, hr]
      rw [hd]
      exact .inl (readHeader_error hr)
    | none =>
      obtain ⟨rest, rfl⟩ : ∃ rest, data =
          [header.index, header.start, header.assets].flatMap Word.bytes ++ rest :=
        ⟨c.rest, readHeader_split hr⟩
      rw [decode_header] at h ⊢
      rcases Step.andThen_eq_error h with hb | ⟨b, hb, hs⟩
      · rcases readBody_error hb with hs | ⟨items, b, more, hi, hv, hm⟩
        · exact .inl (.of_words _ (hs.andThen_left _))
        · refine .inr ⟨⟨header, items, b, more⟩, ⟨hi, hv⟩, ?_⟩
          rw [Spoilt.bytes, ← hm]
      · obtain ⟨items, more, hi, hm⟩ := readBody_split hb
        obtain rfl : rest = _ := hm
        rw [readBody_words hi] at hs
        cases hs

theorem truncated_of_starved {data : Bytes} {s : Step Program} (h : s.Starved ⟨0, data, none⟩) :
    s.cursor.offset = data.length ∧
      ∃ part, s.result = .error (.truncated (4 * (data.length / 4)) part) := by
  obtain ⟨hc, part, he⟩ := h
  refine ⟨?_, part, ?_⟩
  · rw [hc, Cursor.drained, Nat.zero_add]
  · rw [he, Cursor.brink, Nat.zero_add]
    rfl

/-- An error of a source that ends by itself points at the word that is not whole, or at the first
record that names no argument of the opcode behind its block. The instructions before that block
can be decoded. -/
theorem decode_error_at_byte {tags : TagSets} {data : Bytes} {e : DecodeError}
    (h : (decode tags ⟨data, none⟩).result = .error e) :
    (∃ part, e = .truncated (4 * (data.length / 4)) part ∧
        (decode tags ⟨data, none⟩).cursor.offset = data.length) ∨
      ∃ s : Spoilt, s.Valid tags ∧ s.bytes = data ∧
        e = .badIndex s.recordOffset (s.block.record >>> 8) s.block.opcode.argCount ∧
        Word.at? data s.recordOffset = some s.block.record ∧
        Word.at? data s.opcodeOffset = some s.block.opcode.word ∧
        (decode tags ⟨data, none⟩).cursor.offset = s.opcodeOffset + 4 ∧
        ∃ p, (decode tags ⟨(⟨s.header, s.items, []⟩ : Listing).bytes, none⟩).result = .ok p := by
  rcases decode_error h with hs | ⟨s, hs, rfl⟩
  · obtain ⟨hc, part, he⟩ := truncated_of_starved hs
    exact .inl ⟨part, Except.error.inj (h.symm.trans he), hc⟩
  · have hd := decode_spoilt hs none
    rw [hd] at h ⊢
    exact .inr ⟨s, hs, rfl, (Except.error.inj h).symm, s.at?_record, s.at?_opcode, rfl, _,
      decode_words (l := ⟨s.header, s.items, []⟩) hs.items⟩

/-- The second record of the second block is the first that names no argument: the record before
it is stray. -/
def spoiltScript : Spoilt where
  header := ⟨3, 0, 0⟩
  items := [.marked [1] (.pack 1 0 1) [5]]
  block := ⟨[0xFF00000A], 0x202, [0x300], .pack 2 9 2⟩
  rest := [1, 2, 3]

theorem decode_error_at_byte_spoilt :
    (decode .standard ⟨spoiltScript.bytes, none⟩).result = .error (.badIndex 44 2 2) ∧
      ∃ s : Spoilt, s.Valid .standard ∧ s.bytes = spoiltScript.bytes ∧ s.recordOffset = 44 ∧
        (decode .standard ⟨spoiltScript.bytes, none⟩).cursor.offset = s.opcodeOffset + 4 := by
  have hi : (⟨spoiltScript.header, spoiltScript.items, []⟩ : Listing).Valid .standard := by decide
  have hb : spoiltScript.block.Valid .standard := by
    refine ⟨by decide, by decide, by decide, ?_⟩
    intro r hr
    obtain rfl := List.mem_singleton.mp hr
    decide
  have hd : (decode .standard ⟨spoiltScript.bytes, none⟩).result = .error (.badIndex 44 2 2) := by
    rw [decode_spoilt ⟨hi, hb⟩]
    rfl
  refine ⟨hd, ?_⟩
  rcases decode_error_at_byte hd with ⟨part, he, -⟩ | ⟨s, hs, hbytes, he, -, -, hc, -⟩
  · cases he
  · injection he with ho
    exact ⟨s, hs, hbytes, ho.symm, hc⟩

namespace Listing

theorem bytes_append (l : Listing) (more : Bytes) :
    (⟨l.header, l.items, l.strings ++ more⟩ : Listing).bytes = l.bytes ++ more := by
  rw [bytes, bytes, List.append_assoc _ l.strings]

theorem length_bytes (l : Listing) : l.bytes.length = l.stop + l.strings.length := by
  rw [bytes, stop, List.length_append, List.length_append, length_opening, Word.length_bytes]
  omega

def stem (l : Listing) : Listing := ⟨l.header, l.items, []⟩

theorem bytes_eq_stem (l : Listing) : l.bytes = l.stem.bytes ++ l.strings :=
  bytes_append l.stem l.strings

theorem length_stem (l : Listing) : l.stem.bytes.length = l.stop := length_bytes l.stem

theorem take_bytes (l : Listing) {n : Nat} (h : l.stop ≤ n) :
    l.bytes.take n = (⟨l.header, l.items, l.strings.take (n - l.stop)⟩ : Listing).bytes := by
  have hstem : l.stem.bytes.take n = l.stem.bytes :=
    List.take_of_length_le (by rwa [length_stem])
  rw [bytes_eq_stem, List.take_append, hstem, length_stem]
  exact (bytes_append l.stem _).symm

theorem drop_bytes (l : Listing) : l.bytes.drop l.stop = l.strings := by
  rw [bytes_eq_stem, ← length_stem, List.drop_left]

theorem at?_endMark (l : Listing) :
    Word.at? l.bytes (12 + 4 * (l.items.flatMap Item.words).length) = some endMark := by
  rw [bytes, List.append_assoc, ← length_opening l.header]
  exact Word.at?_append_bytes_append _ _ endMark

end Listing

theorem Spoilt.bytes_append (s : Spoilt) (more : Bytes) :
    (⟨s.header, s.items, s.block, s.rest ++ more⟩ : Spoilt).bytes = s.bytes ++ more := by
  simp only [bytes, List.append_assoc]

section Cut

variable {tags : TagSets} {l : Listing} (hl : l.Valid tags) {n : Nat}

include hl

/-- What is left of a script that is cut before the end of its stream is no script. -/
theorem bytes_ne_take (hn : n < l.stop) {m : Listing} (hm : m.Valid tags) :
    m.bytes ≠ l.bytes.take n := by
  intro he
  let whole : Listing := ⟨m.header, m.items, m.strings ++ l.bytes.drop n⟩
  have hb : whole.bytes = l.bytes := by
    rw [m.bytes_append, he, List.take_append_drop]
  have hv : whole.Valid tags := hm
  have heq : whole = l :=
    Listing.eq_of_bytes_eq (fun i hi => (hv i hi).1) (fun i hi => (hl i hi).1) hb
  have hstop : m.stop = l.stop := by
    rw [← heq]
    rfl
  have hlen := congrArg List.length he
  rw [m.length_bytes, List.length_take] at hlen
  omega

theorem spoilt_bytes_ne_take {s : Spoilt} (hs : s.Valid tags) : s.bytes ≠ l.bytes.take n := by
  intro he
  let whole : Spoilt := ⟨s.header, s.items, s.block, s.rest ++ l.bytes.drop n⟩
  have hb : whole.bytes = l.bytes := by
    rw [s.bytes_append, he, List.take_append_drop]
  have hv : whole.Valid tags := ⟨hs.items, hs.block⟩
  have hd := decode_words hl
  rw [← hb, decode_spoilt hv] at hd
  cases hd

theorem decode_take_of_lt_stop (hn : n < l.stop) :
    ∃ part, (decode tags ⟨l.bytes.take n, none⟩).result =
      .error (.truncated (4 * (n / 4)) part) := by
  have hlen : (l.bytes.take n).length = n := by
    rw [List.length_take, l.length_bytes]
    omega
  cases hr : (decode tags ⟨l.bytes.take n, none⟩).result with
  | ok p =>
    obtain ⟨m, hm, hb⟩ := decode_split hr
    exact absurd hb (bytes_ne_take hl hn hm)
  | error e =>
    rcases decode_error hr with hs | ⟨s, hs, hb⟩
    · obtain ⟨-, part, he⟩ := truncated_of_starved hs
      rw [hlen, hr] at he
      exact ⟨part, he⟩
    · exact absurd hb (spoilt_bytes_ne_take hl hs)

end Cut

/-- A script that is decoded has an end mark behind which it may be cut or go on, and this changes
the string data only. Cut before it, the script ends too early. -/
theorem decode_stable {tags : TagSets} {data : Bytes} {p : Program}
    (h : (decode tags ⟨data, none⟩).result = .ok p) :
    ∃ mark, Word.at? data mark = some endMark ∧ data.drop (mark + 4) = p.strings ∧
      (∀ n < mark + 4, ∃ part, (decode tags ⟨data.take n, none⟩).result =
        .error (.truncated (4 * (n / 4)) part)) ∧
      (∀ n, mark + 4 ≤ n → (decode tags ⟨data.take n, none⟩).result =
        .ok { p with strings := p.strings.take (n - (mark + 4)) }) ∧
      ∀ more, (decode tags ⟨data ++ more, none⟩).result =
        .ok { p with strings := p.strings ++ more } := by
  obtain ⟨l, hl, rfl, rfl⟩ := decode_eq_ok_iff.mp h
  refine ⟨_, l.at?_endMark, l.drop_bytes, ?_, ?_, ?_⟩
  · intro n hn
    exact decode_take_of_lt_stop hl hn
  · intro n hn
    rw [l.take_bytes hn]
    exact decode_words hl
  · intro more
    rw [← l.bytes_append]
    exact decode_words hl

def markedListing : Listing where
  header := ⟨3, 0, 0⟩
  items := [.marked [1] (.pack 1 0 1) [endMark]]
  strings := Word.bytes endMark

theorem decode_stable_marked :
    ∃ p, (decode .standard ⟨markedListing.bytes, none⟩).result = .ok p ∧
      (∃ part, (decode .standard ⟨markedListing.bytes.take 35, none⟩).result =
        .error (.truncated 32 part)) ∧
      (decode .standard ⟨markedListing.bytes.take 38, none⟩).result =
        .ok { p with strings := [0xFE, 0xFF] } ∧
      (decode .standard ⟨markedListing.bytes ++ Word.bytes endMark, none⟩).result =
        .ok { p with strings := Word.bytes endMark ++ Word.bytes endMark } := by
  have hv : markedListing.Valid .standard := by decide
  have hd := decode_words hv
  obtain ⟨mark, hm, hs, hcut, hkeep, hmore⟩ := decode_stable hd
  -- The end mark is the one behind which four bytes are left.
  obtain rfl : mark = 32 := by
    have hlen := congrArg List.length hs
    have hle := Word.le_length_of_at? hm
    rw [List.length_drop] at hlen
    have hall : markedListing.bytes.length = 40 := rfl
    have hstr : (markedListing.program .standard).strings.length = 4 := rfl
    omega
  exact ⟨_, hd, hcut 35 (by decide), hkeep 38 (by decide), hmore _⟩

end FlowPack.Script
