import FlowPack.Proofs.Stopping

namespace FlowPack.Script

def Cursor.breaking (c : Cursor) (f : Fault) : Cursor := { c with fault := some f }

/-- What becomes of an error when the source breaks off at its end. -/
def DecodeError.breaking (f : Fault) : DecodeError → DecodeError
  | .truncated offset part | .unreadable offset part _ =>
    if f.saysShort then .truncated offset part else .unreadable offset part f
  | .badIndex offset index argCount => .badIndex offset index argCount
  | .unreadableStrings offset _ => .unreadableStrings offset f

def Step.breaking {α : Type} (s : Step α) (f : Fault) : Step α :=
  ⟨s.strays, s.cursor.breaking f, s.result.mapError (DecodeError.breaking f)⟩

section Steps

variable {α β : Type} {c d : Cursor} {w : UInt32} (f : Fault)

theorem Cursor.next?_breaking_of_none (h : c.next? = none) : (c.breaking f).next? = none := by
  rw [next?, Option.map_eq_none_iff] at h ⊢
  exact h

theorem Cursor.next?_breaking_of_some (h : c.next? = some (w, d)) :
    (c.breaking f).next? = some (w, d.breaking f) := by
  obtain ⟨hc, hd⟩ := eq_of_next? h
  rw [hc, hd]
  exact next?_bytes_append ..

theorem Cursor.shortfall_breaking (c : Cursor) (part : Part) :
    (c.breaking f).shortfall part = (c.shortfall part).breaking f := by
  obtain ⟨offset, rest, fault⟩ := c
  cases fault with
  | none => rfl
  | some g => cases hg : g.saysShort <;> simp [shortfall, breaking, DecodeError.breaking, hg]

theorem Step.stop_breaking (c : Cursor) (part : Part) :
    (stop (c.breaking f) part : Step α) = (stop c part).breaking f := by
  rw [stop, c.shortfall_breaking]
  rfl

theorem Step.andThen_breaking (s : Step α) {g : α → Cursor → Step β}
    (hg : ∀ a, g a (s.cursor.breaking f) = (g a s.cursor).breaking f) :
    (s.breaking f).andThen g = (s.andThen g).breaking f := by
  obtain ⟨strays, c, result⟩ := s
  cases result with
  | error e => rfl
  | ok a =>
    have hb : (⟨strays, c, .ok a⟩ : Step α).breaking f = ⟨strays, c.breaking f, .ok a⟩ := rfl
    rw [hb, andThen_ok, andThen_ok, hg]
    rfl

theorem Step.map_breaking (s : Step α) (strays : List StrayTag) (g : α → β) :
    (⟨strays, (s.breaking f).cursor, (s.breaking f).result.map g⟩ : Step β) =
      (⟨strays, s.cursor, s.result.map g⟩ : Step β).breaking f := by
  obtain ⟨_, c, result⟩ := s
  cases result <;> rfl

end Steps

section Readers

variable (tags : TagSets) (f : Fault)

theorem readRecords_breaking (n : Nat) (c : Cursor) :
    readRecords tags n (c.breaking f) = (readRecords tags n c).breaking f := by
  induction n generalizing c with
  | zero => rfl
  | succ n ih =>
    rw [readRecords, readRecords]
    cases hn : c.next? with
    | none =>
      rw [Cursor.next?_breaking_of_none f hn]
      exact Step.stop_breaking f c .record
    | some p =>
      obtain ⟨r, c₁⟩ := p
      rw [Cursor.next?_breaking_of_some f hn]
      dsimp only
      rw [ih c₁]
      cases tags.classify r.toUInt8 with
      | none => rfl
      | some k => exact Step.map_breaking f (readRecords tags n c₁) _ _

theorem readArgs_breaking (n : Nat) (c : Cursor) :
    readArgs n (c.breaking f) = (readArgs n c).breaking f := by
  induction n generalizing c with
  | zero => rfl
  | succ n ih =>
    rw [readArgs, readArgs]
    cases hn : c.next? with
    | none =>
      rw [Cursor.next?_breaking_of_none f hn]
      exact Step.stop_breaking f c .argument
    | some p =>
      obtain ⟨v, c₁⟩ := p
      rw [Cursor.next?_breaking_of_some f hn]
      dsimp only
      rw [ih c₁]
      exact Step.map_breaking f (readArgs n c₁) _ _

theorem readBlock_breaking (c : Cursor) :
    readBlock tags (c.breaking f) = (readBlock tags c).breaking f := by
  unfold readBlock
  cases hn : c.next? with
  | none =>
    rw [Cursor.next?_breaking_of_none f hn]
    exact Step.stop_breaking f c .recordCount
  | some p =>
    obtain ⟨count, c₁⟩ := p
    rw [Cursor.next?_breaking_of_some f hn]
    dsimp only
    rw [readRecords_breaking]
    apply Step.andThen_breaking
    intro marks
    generalize (readRecords tags count.toNat c₁).cursor = c₂
    cases hn₂ : c₂.next? with
    | none =>
      rw [Cursor.next?_breaking_of_none f hn₂]
      exact Step.stop_breaking f c₂ .markedOpcode
    | some q =>
      rw [Cursor.next?_breaking_of_some f hn₂]
      rfl

theorem readOperands_breaking (op : Opcode) (marks : List Mark) (c : Cursor) :
    readOperands op marks (c.breaking f) = (readOperands op marks c).breaking f := by
  unfold readOperands
  cases badMark? marks op.argCount with
  | none => exact readArgs_breaking f op.argCount c
  | some m => rfl

theorem readItem_breaking (w : UInt32) (c : Cursor) :
    readItem tags w (c.breaking f) = (readItem tags w c).breaking f := by
  have hlead : readLead tags w (c.breaking f) = (readLead tags w c).breaking f := by
    unfold readLead
    split
    · exact readBlock_breaking tags f c
    · rfl
  rw [readItem_eq, readItem_eq, hlead]
  apply Step.andThen_breaking
  intro p
  rw [readOperands_breaking]
  apply Step.andThen_breaking
  intro args
  rfl

theorem readBody_breaking (c : Cursor) (here : Nat) :
    readBody tags (c.breaking f) here = (readBody tags c here).breaking f := by
  -- Both runs go on where an item ended, with the same number of bytes left.
  induction hl : c.rest.length using Nat.strongRecOn generalizing c here with
  | ind n ih =>
    cases hn : c.next? with
    | none =>
      rw [readBody_of_next?_none here hn,
        readBody_of_next?_none here (Cursor.next?_breaking_of_none f hn)]
      exact Step.stop_breaking f c .instruction
    | some p =>
      obtain ⟨w, c₁⟩ := p
      rw [readBody_of_next? here hn, readBody_of_next? here (Cursor.next?_breaking_of_some f hn)]
      by_cases hw : w = endMark
      · rw [if_pos hw, if_pos hw]
        rfl
      · rw [if_neg hw, if_neg hw, readItem_breaking]
        apply Step.andThen_breaking
        intro p
        have hlt : (readItem tags w c₁).cursor.rest.length < n := by
          have hle := readItem_cursor_le tags w c₁
          have hlen := Cursor.rest_length_of_next? hn
          omega
        dsimp only
        rw [ih _ hlt _ _ rfl]
        exact Step.map_breaking f (readBody tags _ _) _ _

end Readers

theorem readHeader_breaking (f : Fault) (c : Cursor) :
    readHeader (c.breaking f) =
      ((readHeader c).1, (readHeader c).2.1.breaking f,
        (readHeader c).2.2.map (DecodeError.breaking f)) := by
  unfold readHeader
  cases h₁ : c.next? with
  | none =>
    rw [Cursor.next?_breaking_of_none f h₁]
    simp only [Cursor.shortfall_breaking]
    rfl
  | some p =>
    obtain ⟨index, c₁⟩ := p
    rw [Cursor.next?_breaking_of_some f h₁]
    dsimp only
    cases h₂ : c₁.next? with
    | none =>
      rw [Cursor.next?_breaking_of_none f h₂]
      simp only [Cursor.shortfall_breaking]
      rfl
    | some p =>
      obtain ⟨start, c₂⟩ := p
      rw [Cursor.next?_breaking_of_some f h₂]
      dsimp only
      cases h₃ : c₂.next? with
      | none =>
        rw [Cursor.next?_breaking_of_none f h₃]
        simp only [Cursor.shortfall_breaking]
        rfl
      | some p =>
        rw [Cursor.next?_breaking_of_some f h₃]
        rfl

theorem decode_breaking {tags : TagSets} {data : Bytes} {e : DecodeError}
    (h : (decode tags ⟨data, none⟩).result = .error e) (f : Fault) :
    decode tags ⟨data, some f⟩ = (decode tags ⟨data, none⟩).breaking f := by
  cases hr : readHeader (.ofSource ⟨data, none⟩) with
  | mk header p =>
    obtain ⟨c, failure⟩ := p
    cases failure with
    | some e' =>
      have hf := readHeader_breaking f (.ofSource ⟨data, none⟩)
      rw [hr] at hf
      have hs : Cursor.ofSource ⟨data, some f⟩ = (Cursor.ofSource ⟨data, none⟩).breaking f := rfl
      rw [decode, decode, hs, hf, hr]
      rfl
    | none =>
      obtain ⟨rest, rfl⟩ : ∃ rest, data =
          [header.index, header.start, header.assets].flatMap Word.bytes ++ rest :=
        ⟨c.rest, readHeader_split hr⟩
      have hbody : readBody tags ⟨12, rest, some f⟩ 0 =
          (readBody tags ⟨12, rest, none⟩ 0).breaking f :=
        readBody_breaking tags f ⟨12, rest, none⟩ 0
      rw [decode_header] at h
      rw [decode_header, decode_header, hbody]
      rcases Step.andThen_eq_error h with hb | ⟨b, hb, hs⟩
      · simp only [Step.andThen, Step.breaking, hb, Except.mapError]
      · -- The string data of a source that ends by itself is always read.
        obtain ⟨items, more, hi, hm⟩ := readBody_split hb
        obtain rfl : rest = _ := hm
        rw [readBody_words hi] at hs
        cases hs

def DecodeError.IsFraming : DecodeError → Prop
  | .truncated .. => True
  | .badIndex .. => True
  | .unreadable .. => False
  | .unreadableStrings .. => False

/-- How a source that breaks off is decoded, as against one that ends after the same data. -/
structure TellsBreak (data : Bytes) (f : Fault) (ended broken : Step Program) : Prop where
  fails : ∀ p, broken.result ≠ .ok p
  /-- If the fault does not tell of missing data, only a record that names no argument is still an
  error of the data. -/
  framing : ∀ e, broken.result = .error e → e.IsFraming → ended.result = .error e ∧
    (f.saysShort = true ∨ ∃ offset index argCount, e = .badIndex offset index argCount)
  truncated : ∀ offset part, ended.result = .error (.truncated offset part) →
    broken.result = .error
        (if f.saysShort then .truncated offset part else .unreadable offset part f) ∧
      broken.cursor.offset = ended.cursor.offset
  badIndex : ∀ offset index argCount, ended.result = .error (.badIndex offset index argCount) →
    broken.result = .error (.badIndex offset index argCount) ∧
      broken.cursor.offset = ended.cursor.offset
  decoded : ∀ p, ended.result = .ok p → ∃ mark, Word.at? data mark = some endMark ∧
    data.drop (mark + 4) = p.strings ∧
      broken.result = .error (.unreadableStrings (mark + 4) f) ∧ broken.cursor.offset = mark + 4
  strays : broken.strays = ended.strays

theorem isFraming_of_ended {tags : TagSets} {data : Bytes} {e : DecodeError}
    (h : (decode tags ⟨data, none⟩).result = .error e) : e.IsFraming := by
  rcases decode_error h with hs | ⟨s, hs, rfl⟩
  · obtain ⟨-, part, he⟩ := truncated_of_starved hs
    obtain rfl := Except.error.inj (h.symm.trans he)
    trivial
  · rw [decode_spoilt hs none] at h
    obtain rfl := Except.error.inj h
    trivial

theorem DecodeError.IsFraming.of_breaking {e : DecodeError} {f : Fault} (he : e.IsFraming)
    (h : (e.breaking f).IsFraming) : e.breaking f = e ∧
      (f.saysShort = true ∨ ∃ offset index argCount, e = .badIndex offset index argCount) := by
  cases e with
  | truncated offset part =>
    cases hf : f.saysShort with
    | true => exact ⟨if_pos hf, .inl rfl⟩
    | false => simp [breaking, hf, IsFraming] at h
  | badIndex offset index argCount => exact ⟨rfl, .inr ⟨offset, index, argCount, rfl⟩⟩
  | unreadable offset part g => exact absurd he id
  | unreadableStrings offset g => exact absurd he id

theorem tellsBreak_of_error {tags : TagSets} {data : Bytes} {e : DecodeError}
    (h : (decode tags ⟨data, none⟩).result = .error e) (f : Fault) :
    TellsBreak data f (decode tags ⟨data, none⟩) (decode tags ⟨data, some f⟩) := by
  have hframing := isFraming_of_ended h
  rw [decode_breaking h f]
  generalize decode tags ⟨data, none⟩ = ended at h
  have hb : (ended.breaking f).result = .error (e.breaking f) := by
    rw [Step.breaking, h]
    rfl
  constructor
  · intro p hp
    rw [hb] at hp
    cases hp
  · intro e' he hf
    obtain rfl := Except.error.inj (hb.symm.trans he)
    obtain ⟨hsame, hshort⟩ := hframing.of_breaking hf
    rw [hsame]
    exact ⟨h, hshort⟩
  · intro offset part ht
    obtain rfl := Except.error.inj (h.symm.trans ht)
    exact ⟨hb, rfl⟩
  · intro offset index argCount ht
    obtain rfl := Except.error.inj (h.symm.trans ht)
    exact ⟨hb, rfl⟩
  · intro p hp
    cases h.symm.trans hp
  · rfl

theorem tellsBreak_listing {tags : TagSets} {l : Listing} (hl : l.Valid tags) (f : Fault) :
    TellsBreak l.bytes f (decode tags ⟨l.bytes, none⟩) (decode tags ⟨l.bytes, some f⟩) := by
  have hb : decode tags ⟨l.bytes, some f⟩ =
      ⟨bodyStrays tags 12 l.items ++ [], ⟨l.stop, l.strings, some f⟩,
        .error (.unreadableStrings l.stop f)⟩ := decode_listing hl (some f)
  have he := decode_words hl
  rw [hb]
  constructor
  · intro p hp
    cases hp
  · intro e h hf
    obtain rfl := Except.error.inj h
    exact absurd hf id
  · intro offset part h
    rw [he] at h
    cases h
  · intro offset index argCount h
    rw [he] at h
    cases h
  · intro p hp
    rw [he] at hp
    obtain rfl := Except.ok.inj hp
    exact ⟨_, l.at?_endMark, l.drop_bytes, rfl, rfl⟩
  · rw [decode_listing hl]
    rfl

/-- A break is not taken for the end of a source, but where the fault itself tells of missing data
while a word is read. -/
theorem decode_tells_break (tags : TagSets) (data : Bytes) (f : Fault) :
    TellsBreak data f (decode tags ⟨data, none⟩) (decode tags ⟨data, some f⟩) := by
  cases h : (decode tags ⟨data, none⟩).result with
  | error e => exact tellsBreak_of_error h f
  | ok p =>
    obtain ⟨l, hl, rfl⟩ := decode_split h
    exact tellsBreak_listing hl f

/-- A stream that is cut off inside a word passes for a script that ends there. -/
theorem cut_stream_passes_for_truncated :
    (decode .standard ⟨[1, 0, 0], some .cutOff⟩).result = .error (.truncated 0 .headerIndex) ∧
      (decode .standard ⟨[1, 0, 0], none⟩).result = .error (.truncated 0 .headerIndex) :=
  ⟨rfl, rfl⟩

end FlowPack.Script
