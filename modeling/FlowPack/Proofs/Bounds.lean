import FlowPack.Proofs.Reading

namespace FlowPack.Container

open Script (Pointer)

inductive Access where
  | word (offset : Nat)
  /-- A word is asked for, and nothing is made of its absence. -/
  | trusted (offset : Nat) (present : Bool)
  | body (offset stop : Nat)
  | record (start stop offset : Nat)
  | passed (start stop : Nat)
  deriving DecidableEq, Repr

/-- The access keeps to a buffer of the given length. -/
def Access.Inside (length : Nat) : Access → Prop
  | word offset => offset + 4 ≤ length
  | trusted offset present => present = true ∧ offset + 4 ≤ length
  | body offset stop => offset ≤ stop ∧ stop ≤ length
  | record start stop offset => start ≤ offset ∧ offset + 5 ≤ stop ∧ stop ≤ length
  | passed start stop => start + 8 ≤ stop ∧ stop ≤ length

structure Reading (α : Type) where
  accesses : List Access
  result : Except ReadError α

namespace Reading

variable {α β : Type}

instance : Monad Reading where
  pure a := ⟨[], .ok a⟩
  bind x f :=
    match x.result with
    | .error e => ⟨x.accesses, .error e⟩
    | .ok a => ⟨x.accesses ++ (f a).accesses, (f a).result⟩

def note (a : Access) : Reading Unit := ⟨[a], .ok ()⟩

def fail (e : ReadError) : Reading α := ⟨[], .error e⟩

/-- The reading keeps to its buffer and ends as given; what is wrong with the content is told as
such. -/
structure Stays (length : Nat) (r : Reading α) (e : Except ReadError α) : Prop where
  result : r.result = e
  inside : ∀ a ∈ r.accesses, a.Inside length
  cause : ∀ err, e = .error err → err.cause ≠ .device

namespace Stays

variable {n : Nat}

protected theorem pure (a : α) : Stays n (pure a) (.ok a) where
  result := rfl
  inside b hb := absurd hb List.not_mem_nil
  cause err h := by cases h

protected theorem fail {e : ReadError} (h : e.cause ≠ .device) :
    Stays n (fail e : Reading α) (.error e) where
  result := rfl
  inside b hb := absurd hb List.not_mem_nil
  cause err he := by
    cases he
    exact h

protected theorem note {a : Access} (h : a.Inside n) : Stays n (note a) (.ok ()) where
  result := rfl
  inside b hb := List.mem_singleton.mp hb ▸ h
  cause err he := by cases he

theorem bind {x : Reading α} {f : α → Reading β} {a : α} {e : Except ReadError β}
    (hx : Stays n x (.ok a)) (hf : Stays n (f a) e) : Stays n (x >>= f) e := by
  obtain ⟨accesses, result⟩ := x
  obtain rfl : result = .ok a := hx.result
  refine ⟨hf.result, ?_, hf.cause⟩
  intro b hb
  rcases List.mem_append.mp hb with hb | hb
  · exact hx.inside b hb
  · exact hf.inside b hb

theorem bind_error {x : Reading α} {err : ReadError} (f : α → Reading β)
    (hx : Stays n x (.error err)) : Stays n (x >>= f) (.error err) := by
  obtain ⟨accesses, result⟩ := x
  obtain rfl : result = .error err := hx.result
  refine ⟨rfl, hx.inside, ?_⟩
  intro e he
  cases he
  exact hx.cause err rfl

end Stays

end Reading

namespace Buffer

open Reading

section Definitions

variable (data : Bytes)

def wordAt (offset : Nat) : UInt32 := (Word.at? data offset).getD 0

def slice (first stop : Nat) : Bytes := (data.drop first).take (stop - first)

def word (offset : Nat) : Reading UInt32 :=
  if offset + 4 ≤ data.length then do
    note (.word offset)
    pure (wordAt data offset)
  else fail (.endOfData offset)

def magic (offset : Nat) : Reading Bytes :=
  if offset + 4 ≤ data.length then do
    note (.word offset)
    pure (slice data offset (offset + 4))
  else fail (.endOfData offset)

/-- A word and the offset behind it. A missing word is taken for zero, and the offset stays. -/
def trustedWord (offset : Nat) : Reading (UInt32 × Nat) := do
  note (.trusted offset (decide (offset + 4 ≤ data.length)))
  if offset + 4 ≤ data.length then pure (wordAt data offset, offset + 4)
  else pure (0, offset)

def records (start stop : Nat) : Nat → Nat → Reading (List Pointer)
  | 0, _ => pure []
  | n + 1, offset => do
    note (.record start stop offset)
    let entry := slice data offset (offset + 5)
    let later ← records start stop n (offset + 5)
    pure (⟨wordAt entry 0, ⟨entry.getD 4 0⟩⟩ :: later)

def body (found : Found) (magic : Bytes) (start : Nat) (size : UInt32) : Reading Found :=
  let stop := start + size.toNat
  if magic = Section.flowMagic then
    if size < 12 then fail (.smallFlow size)
    else do
      let (entry, offset) ← trustedWord data (start + 8)
      note (.body offset stop)
      pure { found with flow := some (entry, slice data offset stop) }
  else if magic = Section.pointersMagic then
    if size < 12 then fail (.smallPointers size)
    else do
      let (count, offset) ← trustedWord data (start + 8)
      if size.toNat ≠ 12 + 5 * count.toNat then fail (.pointerCount size count)
      else do
        let entries ← records data start stop count.toNat offset
        pure { found with pointers := some entries }
  else if magic = Section.stringsMagic then do
    note (.body (start + 8) stop)
    pure { found with strings := some (slice data (start + 8) stop) }
  else if magic = Section.temposMagic then fail .temposUnsupported
  else fail (.unknownSection magic start)

def nextSection (start : Nat) (found : Found) : Reading (Found × Nat) := do
  let magic ← magic data start
  let size ← word data (start + 4)
  if size < 8 ∨ data.length < start + size.toNat then fail (.sectionSize magic start size)
  else do
    let found ← body data found magic start size
    note (.passed start (start + size.toNat))
    pure (found, start + size.toNat)

def sections : Nat → Nat → Found → Reading (Found × Nat)
  | 0, offset, found => pure (found, offset)
  | n + 1, offset, found => do
    let (found, offset) ← nextSection data offset found
    sections n offset found

def header : Reading Header := do
  let magic ← magic data 0
  if magic ≠ Container.fileMagic then fail (.fileMagic magic)
  else do
    let size ← word data 4
    let version ← word data 8
    if version ≠ Container.version then fail (.version version)
    else do
      let count ← word data 12
      if size.toNat = data.length then pure ⟨magic, size, version, count⟩
      else fail (.totalSize size data.length)

def read : Reading Container := do
  let h ← header data
  let (found, offset) ← sections data h.sections.toNat 16 {}
  if offset ≠ data.length then fail (.trailing (data.length - offset))
  else ⟨[], assemble found⟩

end Definitions

variable {data : Bytes}

theorem of_take?_drop {offset : Nat} {w : UInt32} {rest : Bytes}
    (h : Word.take? (data.drop offset) = some (w, rest)) :
    offset + 4 ≤ data.length ∧ wordAt data offset = w ∧ rest = data.drop (offset + 4) := by
  have hat : Word.at? data offset = some w := by rw [Word.at?, h]; rfl
  refine ⟨Word.le_length_of_at? hat, by rw [wordAt, hat]; rfl, ?_⟩
  rw [← List.drop_drop, Word.take?_eq_some_iff.mp h]
  exact (List.drop_left' (Word.length_bytes w)).symm

theorem length_lt_of_take?_drop {offset : Nat} (h : Word.take? (data.drop offset) = none) :
    data.length < offset + 4 := by
  rw [Word.take?_eq_none_iff, List.length_drop] at h
  omega

theorem length_slice {first stop : Nat} (h : stop ≤ data.length) :
    (slice data first stop).length = stop - first := by
  rw [slice, List.length_take, List.length_drop]
  omega

theorem take?_slice {first stop : Nat} (h : first + 4 ≤ stop) (hl : stop ≤ data.length) :
    Word.take? (slice data first stop) = some (wordAt data first, slice data (first + 4) stop) := by
  cases hw : Word.take? (slice data first stop) with
  | none =>
    rw [Word.take?_eq_none_iff, length_slice hl] at hw
    omega
  | some p =>
    obtain ⟨w, rest⟩ := p
    have hfront : Word.take? ((slice data first stop).drop 0) = some (w, rest) := hw
    obtain ⟨-, hword, rfl⟩ := of_take?_drop hfront
    rw [← hword, wordAt, slice, Word.at?_take_drop (by omega), Nat.zero_add, List.drop_take,
      List.drop_drop, slice, wordAt, Nat.sub_sub, Nat.add_zero]

theorem drop_eq_of_le {offset : Nat} (h : offset + 4 ≤ data.length) :
    ∃ a b c d, data.drop offset = a :: b :: c :: d :: data.drop (offset + 4) ∧
      slice data offset (offset + 4) = [a, b, c, d] := by
  have hlen : 4 ≤ (data.drop offset).length := by rw [List.length_drop]; omega
  rw [slice, Nat.add_sub_cancel_left, ← List.drop_drop]
  match data.drop offset, hlen with
  | a :: b :: c :: d :: rest, _ => exact ⟨a, b, c, d, rfl, rfl⟩

theorem stays_word {offset : Nat} (h : offset + 4 ≤ data.length) :
    Stays data.length (word data offset) (.ok (wordAt data offset)) := by
  rw [word, if_pos h]
  exact .bind (.note h) (.pure _)

theorem stays_word_error {offset : Nat} (h : data.length < offset + 4) :
    Stays data.length (word data offset) (.error (.endOfData offset)) := by
  rw [word, if_neg (Nat.not_le.mpr h)]
  exact .fail (by simp [ReadError.cause])

theorem stays_word_bind {α : Type} {offset : Nat} {f : UInt32 → Reading α}
    {e : Except ReadError α}
    (hnone : Word.take? (data.drop offset) = none → e = .error (.endOfData offset))
    (hsome : ∀ w, Word.take? (data.drop offset) = some (w, data.drop (offset + 4)) →
      Stays data.length (f w) e) :
    Stays data.length (word data offset >>= f) e := by
  cases hw : Word.take? (data.drop offset) with
  | none =>
    rw [hnone hw]
    exact .bind_error f (stays_word_error (length_lt_of_take?_drop hw))
  | some p =>
    obtain ⟨w, rest⟩ := p
    obtain ⟨h, rfl, rfl⟩ := of_take?_drop hw
    exact .bind (stays_word h) (hsome _ hw)

theorem stays_magic {offset : Nat} (h : offset + 4 ≤ data.length) :
    Stays data.length (magic data offset) (.ok (slice data offset (offset + 4))) := by
  rw [magic, if_pos h]
  exact .bind (.note h) (.pure _)

theorem stays_magic_error {offset : Nat} (h : data.length < offset + 4) :
    Stays data.length (magic data offset) (.error (.endOfData offset)) := by
  rw [magic, if_neg (Nat.not_le.mpr h)]
  exact .fail (by simp [ReadError.cause])

theorem stays_trustedWord {offset : Nat} (h : offset + 4 ≤ data.length) :
    Stays data.length (trustedWord data offset) (.ok (wordAt data offset, offset + 4)) := by
  rw [trustedWord, if_pos h]
  exact .bind (.note ⟨decide_eq_true h, h⟩) (.pure _)

theorem readPointers_slice {offset n : Nat} (h : offset + 5 * (n + 1) ≤ data.length) :
    readPointers (slice data offset (offset + 5 * (n + 1))) =
      ⟨wordAt (slice data offset (offset + 5)) 0,
        ⟨(slice data offset (offset + 5)).getD 4 0⟩⟩ ::
        readPointers (slice data (offset + 5) (offset + 5 + 5 * n)) := by
  have hlen : 5 ≤ (data.drop offset).length := by rw [List.length_drop]; omega
  simp only [slice, Nat.add_sub_cancel_left, ← List.drop_drop]
  match data.drop offset, hlen with
  | a :: b :: c :: d :: k :: rest, _ => rfl

theorem stays_records {start stop : Nat} (hl : stop ≤ data.length) {n offset : Nat}
    (hstart : start ≤ offset) (hstop : offset + 5 * n ≤ stop) :
    Stays data.length (records data start stop n offset)
      (.ok (readPointers (slice data offset (offset + 5 * n)))) := by
  induction n generalizing offset with
  | zero =>
    rw [slice, Nat.mul_zero, Nat.add_zero, Nat.sub_self, List.take_zero]
    exact .pure _
  | succ n ih =>
    rw [readPointers_slice (by omega)]
    refine .bind (.note ⟨hstart, by omega, hl⟩) ?_
    exact .bind (ih (by omega) (by omega)) (.pure _)

theorem readSections_of_short {n offset : Nat} {rest : Bytes} {found : Found}
    (h : rest.length < 4) :
    readSections (n + 1) offset rest found = .error (.endOfData offset) := by
  rcases rest with _ | ⟨a, _ | ⟨b, _ | ⟨c, _ | ⟨d, rest⟩⟩⟩⟩
  case cons.cons.cons.cons =>
    simp only [List.length_cons] at h
    omega
  all_goals rfl

theorem readSections_of_size {start : Nat} {a b c d : UInt8} {size : UInt32} (n : Nat)
    (found : Found) (hd : data.drop start = a :: b :: c :: d :: data.drop (start + 4))
    (hw : Word.take? (data.drop (start + 4)) = some (size, data.drop (start + 4 + 4))) :
    readSections (n + 1) start (data.drop start) found =
      if size < 8 ∨ data.length < start + size.toNat then
        .error (.sectionSize [a, b, c, d] start size)
      else
        (readSection found [a, b, c, d] start size
          (slice data (start + 8) (start + size.toNat))).bind
            (readSections n (start + size.toNat) (data.drop (start + size.toNat))) := by
  have h8 : start + 4 + 4 ≤ data.length := (of_take?_drop hw).1
  have hchecks : (size < 8 ∨ (a :: b :: c :: d :: data.drop (start + 4)).length < size.toNat) ↔
      (size < 8 ∨ data.length < start + size.toNat) := by
    rw [← hd, List.length_drop]
    exact or_congr_right (by omega)
  have hcut : slice data (start + 8) (start + size.toNat) =
      (data.drop (start + 4 + 4)).take (size.toNat - 8) := by
    rw [slice, Nat.add_sub_add_left]
  rw [hd, hcut]
  simp only [readSections, hw, hchecks]
  by_cases hc : size < 8 ∨ data.length < start + size.toNat
  · rw [if_pos hc, if_pos hc]
  · have hmin : ¬ size.toNat < 8 := fun h => hc (.inl (UInt32.lt_iff_toNat_lt.mpr h))
    have hrest : (data.drop (start + 4 + 4)).drop (size.toNat - 8) =
        data.drop (start + size.toNat) := by
      rw [List.drop_drop]
      congr 1
      omega
    rw [if_neg hc, if_neg hc, hrest]
    cases readSection found [a, b, c, d] start size
      ((data.drop (start + 4 + 4)).take (size.toNat - 8)) <;> rfl

section Sections

variable {start : Nat} {size : UInt32} (found : Found)

theorem stays_body (magic : Bytes) (h8 : 8 ≤ size.toNat) (hl : start + size.toNat ≤ data.length) :
    Stays data.length (body data found magic start size)
      (readSection found magic start size (slice data (start + 8) (start + size.toNat))) := by
  have hsmall : size < 12 ↔ size.toNat < 12 := UInt32.lt_iff_toNat_lt
  have hnone (h : size.toNat < 12) :
      Word.take? (slice data (start + 8) (start + size.toNat)) = none := by
    rw [Word.take?_eq_none_iff, length_slice hl]
    omega
  have hsome : ¬ size.toNat < 12 → Word.take? (slice data (start + 8) (start + size.toNat)) =
      some (wordAt data (start + 8), slice data (start + 12) (start + size.toNat)) :=
    fun h => take?_slice (by omega) hl
  unfold body readSection
  dsimp only
  by_cases hflow : magic = Section.flowMagic
  · rw [if_pos hflow, if_pos hflow]
    by_cases h : size.toNat < 12
    · rw [if_pos (hsmall.mpr h), hnone h]
      exact .fail (by simp [ReadError.cause])
    · rw [if_neg (mt hsmall.mp h), hsome h]
      refine .bind (stays_trustedWord (by omega)) ?_
      exact .bind (.note ⟨by omega, hl⟩) (.pure _)
  rw [if_neg hflow, if_neg hflow]
  by_cases hpointers : magic = Section.pointersMagic
  · rw [if_pos hpointers, if_pos hpointers]
    by_cases h : size.toNat < 12
    · rw [if_pos (hsmall.mpr h), hnone h]
      exact .fail (by simp [ReadError.cause])
    · rw [if_neg (mt hsmall.mp h), hsome h]
      refine .bind (stays_trustedWord (by omega)) ?_
      dsimp only
      by_cases hcount : size.toNat ≠ 12 + 5 * (wordAt data (start + 8)).toNat
      · rw [if_pos hcount, if_pos hcount]
        exact .fail (by simp [ReadError.cause])
      · rw [if_neg hcount, if_neg hcount]
        -- The table ends where the section does.
        have hstop : start + size.toNat = start + 12 + 5 * (wordAt data (start + 8)).toNat := by
          omega
        rw [hstop] at hl ⊢
        exact .bind (stays_records hl (by omega) (Nat.le_refl _)) (.pure _)
  rw [if_neg hpointers, if_neg hpointers]
  by_cases hstrings : magic = Section.stringsMagic
  · rw [if_pos hstrings, if_pos hstrings]
    exact .bind (.note ⟨by omega, hl⟩) (.pure _)
  rw [if_neg hstrings, if_neg hstrings]
  by_cases htempos : magic = Section.temposMagic
  · rw [if_pos htempos, if_pos htempos]
    exact .fail (by simp [ReadError.cause])
  · rw [if_neg htempos, if_neg htempos]
    exact .fail (by simp [ReadError.cause])

/-- One round in place is one round over the bytes from the offset on, and ends at the offset that
is left to be read from. -/
theorem stays_nextSection (start : Nat) :
    (∃ e, Stays data.length (nextSection data start found) (.error e) ∧
      ∀ n, readSections (n + 1) start (data.drop start) found = .error e) ∨
    ∃ found' stop, stop ≤ data.length ∧
      Stays data.length (nextSection data start found) (.ok (found', stop)) ∧
      ∀ n, readSections (n + 1) start (data.drop start) found =
        readSections n stop (data.drop stop) found' := by
  by_cases h4 : start + 4 ≤ data.length
  swap
  · refine .inl ⟨.endOfData start, .bind_error _ (stays_magic_error (by omega)), fun n => ?_⟩
    exact readSections_of_short (by rw [List.length_drop]; omega)
  obtain ⟨a, b, c, d, hd, hmagic⟩ := drop_eq_of_le h4
  have hm := stays_magic h4
  rw [hmagic] at hm
  cases hw : Word.take? (data.drop (start + 4)) with
  | none =>
    have hs := stays_word_error (length_lt_of_take?_drop hw)
    refine .inl ⟨.endOfData (start + 4), .bind hm (.bind_error _ hs), fun n => ?_⟩
    rw [hd]
    simp only [readSections, hw]
  | some p =>
    obtain ⟨size, rest⟩ := p
    obtain ⟨h8, hword, rfl⟩ := of_take?_drop hw
    have hs := stays_word h8
    rw [hword] at hs
    simp only [fun n => readSections_of_size n found hd hw]
    -- From here on both readers judge the declared size by the same test.
    by_cases hc : size < 8 ∨ data.length < start + size.toNat
    · refine .inl ⟨.sectionSize [a, b, c, d] start size, .bind hm (.bind hs ?_), fun n => if_pos hc⟩
      rw [if_pos hc]
      exact .fail (by simp [ReadError.cause])
    · have hmin : ¬ size.toNat < 8 := fun h => hc (.inl (UInt32.lt_iff_toNat_lt.mpr h))
      have hl : start + size.toNat ≤ data.length := Nat.not_lt.mp fun h => hc (.inr h)
      have hbody := stays_body found [a, b, c, d] (Nat.not_lt.mp hmin) hl
      simp only [if_neg hc]
      cases hr : readSection found [a, b, c, d] start size
          (slice data (start + 8) (start + size.toNat)) with
      | error e =>
        rw [hr] at hbody
        refine .inl ⟨e, .bind hm (.bind hs ?_), fun n => rfl⟩
        rw [if_neg hc]
        exact .bind_error _ hbody
      | ok found' =>
        rw [hr] at hbody
        refine .inr ⟨found', start + size.toNat, hl, .bind hm (.bind hs ?_), fun n => rfl⟩
        rw [if_neg hc]
        exact .bind hbody (.bind (.note ⟨by omega, hl⟩) (.pure _))

theorem stays_sections (n : Nat) {offset : Nat} (h : offset ≤ data.length) :
    Stays data.length (sections data n offset found)
      ((readSections n offset (data.drop offset) found).map
        fun p => (p.1, data.length - p.2.length)) := by
  induction n generalizing offset found with
  | zero =>
    have hlen : data.length - (data.drop offset).length = offset := by
      rw [List.length_drop]
      omega
    rw [readSections, Except.map, hlen]
    exact .pure _
  | succ n ih =>
    rcases stays_nextSection found offset with ⟨e, hs, hr⟩ | ⟨found', stop, hl, hs, hr⟩
    · rw [hr]
      exact .bind_error _ hs
    · rw [hr]
      exact .bind hs (ih found' hl)

end Sections

def headerResult (data : Bytes) : Except ReadError Header :=
  match readHeader data with
  | (_, some e) => .error e
  | (h, none) => .ok h

theorem stays_header (data : Bytes) : Stays data.length (header data) (headerResult data) := by
  match data with
  | [] => exact .bind_error _ (stays_magic_error (by simp))
  | [a] => exact .bind_error _ (stays_magic_error (by simp))
  | [a, b] => exact .bind_error _ (stays_magic_error (by simp))
  | [a, b, c] => exact .bind_error _ (stays_magic_error (by simp))
  | a :: b :: c :: d :: rest =>
    obtain ⟨data, hdata⟩ : ∃ data, data = a :: b :: c :: d :: rest := ⟨_, rfl⟩
    have hrest : data.drop 4 = rest := by rw [hdata]; rfl
    have hm : Stays data.length (magic data 0) (.ok [a, b, c, d]) := by
      subst hdata
      exact stays_magic (by simp)
    unfold headerResult readHeader
    dsimp only
    rw [← hdata, ← hrest]
    refine .bind hm ?_
    split
    · exact .fail (by simp [ReadError.cause])
    refine stays_word_bind (fun h => by rw [h]) fun size h => ?_
    rw [h]
    dsimp only
    refine stays_word_bind (fun h => by rw [h]) fun version h => ?_
    rw [h]
    dsimp only
    split
    · exact .fail (by simp [ReadError.cause])
    refine stays_word_bind (fun h => by rw [h]) fun count h => ?_
    rw [h]
    dsimp only
    split
    · exact .pure _
    · exact .fail (by simp [ReadError.cause])

theorem stays_assemble (n : Nat) (found : Found) :
    Stays n ⟨[], assemble found⟩ (assemble found) where
  result := rfl
  inside a ha := absurd ha List.not_mem_nil
  cause e he := by
    unfold assemble at he
    split at he
    · split at he
      · cases he
        simp [ReadError.cause]
      · cases he
    · cases he
      simp [ReadError.cause]

theorem stays_read (data : Bytes) : Stays data.length (read data) (Container.read data) := by
  have hh := stays_header data
  unfold headerResult at hh
  unfold read Container.read
  split
  · next e hr =>
    rw [hr] at hh
    exact .bind_error _ hh
  · next h hr =>
    rw [hr] at hh
    refine .bind hh ?_
    obtain ⟨hm, -, -, rest, hdata⟩ := readHeader_split hr
    have h16 : 16 ≤ data.length := by
      rw [hdata, List.length_append, Header.encode, hm]
      exact Nat.le_add_right 16 rest.length
    have hs := stays_sections {} h.sections.toNat h16
    cases hr : readSections h.sections.toNat 16 (data.drop 16) {} with
    | error e =>
      rw [hr] at hs
      exact .bind_error _ hs
    | ok p =>
      obtain ⟨found, rest⟩ := p
      rw [hr] at hs
      refine .bind hs ?_
      obtain ⟨ss, -, -, hrest⟩ := readSections_split hr
      have hle : rest.length ≤ data.length := by
        have hlen := congrArg List.length hrest
        rw [List.length_drop, List.length_append] at hlen
        omega
      dsimp only
      cases rest with
      | nil =>
        rw [if_neg (by simp)]
        exact stays_assemble data.length found
      | cons b rest =>
        have hne : data.length - (b :: rest).length ≠ data.length := by
          rw [List.length_cons] at hle ⊢
          omega
        rw [if_pos hne, Nat.sub_sub_self hle]
        exact .fail (by simp [ReadError.cause])

end Buffer

/-- Reading in place never leaves the buffer and gives what reading byte by byte gives: a container,
or an error that blames the content. -/
theorem reader_stays_inside (data : Bytes) :
    (Buffer.read data).result = read data ∧
      (∀ a ∈ (Buffer.read data).accesses, a.Inside data.length) ∧
      ((∃ c, read data = .ok c) ∨
        ∃ e, read data = .error e ∧ e.cause ∈ [.corrupt, .magic, .version, .tempos]) := by
  have h := Buffer.stays_read data
  refine ⟨h.result, h.inside, ?_⟩
  cases hr : read data with
  | ok c => exact .inl ⟨c, rfl⟩
  | error e =>
    have hcause := h.cause e hr
    refine .inr ⟨e, rfl, ?_⟩
    generalize e.cause = cause at hcause
    cases cause with
    | device => exact absurd rfl hcause
    | corrupt | magic | version | tempos => simp

theorem reader_stays_inside_disordered :
    (Buffer.read (sectionsBytes disordered)).result = .ok settled ∧
      Access.record 63 85 80 ∈ (Buffer.read (sectionsBytes disordered)).accesses ∧
      (Access.record 63 85 80).Inside 96 ∧
      Access.trusted 34 true ∈ (Buffer.read (sectionsBytes disordered)).accesses ∧
      (Access.trusted 34 true).Inside 96 := by
  have hrecord : Access.record 63 85 80 ∈ (Buffer.read (sectionsBytes disordered)).accesses := by
    decide +kernel
  have htrusted : Access.trusted 34 true ∈ (Buffer.read (sectionsBytes disordered)).accesses := by
    decide +kernel
  have hread : read (sectionsBytes disordered) = .ok settled := by decide +kernel
  obtain ⟨hresult, hinside, -⟩ := reader_stays_inside (sectionsBytes disordered)
  exact ⟨hresult.trans hread, hrecord, hinside _ hrecord, htrusted, hinside _ htrusted⟩

end FlowPack.Container
