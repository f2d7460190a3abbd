import FlowPack.Proofs.Sections
import Mathlib.Data.List.Induction

namespace FlowPack.Container

open Script (Pointer)

theorem flatMap_readPointers {data : Bytes} {n : Nat} (h : data.length = 5 * n) :
    (readPointers data).flatMap pointerBytes = data ∧ (readPointers data).length = n := by
  induction n generalizing data with
  | zero =>
    obtain rfl := List.length_eq_zero_iff.mp h
    exact ⟨rfl, rfl⟩
  | succ n ih =>
    match data, h with
    | a :: b :: c :: d :: k :: rest, h =>
      obtain ⟨hb, hl⟩ := ih (show rest.length = 5 * n by simp only [List.length_cons] at h; omega)
      constructor
      · rw [readPointers, List.flatMap_cons, hb, pointerBytes, Word.bytes_ofBytes]
        rfl
      · rw [readPointers, List.length_cons, hl]

theorem readSection_split {found found' : Found} {magic body : Bytes} {offset : Nat}
    {size : UInt32} (hsize : size.toNat = body.length + 8)
    (h : readSection found magic offset size body = .ok found') :
    ∃ s : Section, s.Writable ∧ s.magic = magic ∧ s.body = body := by
  unfold readSection at h
  split at h
  · next hm =>
    split at h
    · cases h
    · next start code hw =>
      exact ⟨.flow start code, trivial, hm.symm, (Word.take?_eq_some_iff.mp hw).symm⟩
  · split at h
    · next hm =>
      split at h
      · cases h
      · next count records hw =>
        split at h
        · cases h
        · next hcount =>
          have hbody := Word.take?_eq_some_iff.mp hw
          have hlen : records.length = 5 * count.toNat := by
            rw [hbody, List.length_append, Word.length_bytes] at hsize
            omega
          obtain ⟨hr, hn⟩ := flatMap_readPointers hlen
          refine ⟨.pointers (readPointers records), trivial, hm.symm, ?_⟩
          rw [Section.body, hr, hn, UInt32.ofNat_toNat, hbody]
    · split at h
      · next hm => exact ⟨.strings body, trivial, hm.symm, rfl⟩
      · split at h <;> cases h

theorem readSections_split {n offset : Nat} {data rest : Bytes} {found found' : Found}
    (h : readSections n offset data found = .ok (found', rest)) :
    ∃ ss : List Section, ss.length = n ∧ (∀ s ∈ ss, s.Sized) ∧
      data = ss.flatMap Section.bytes ++ rest := by
  induction n generalizing offset data found with
  | zero =>
    cases h
    exact ⟨[], rfl, fun s hm => absurd hm List.not_mem_nil, rfl⟩
  | succ n ih =>
    unfold readSections at h
    dsimp only at h
    split at h
    · next a b c d rest₁ =>
      split at h
      · cases h
      · next size rest₂ hw =>
        obtain rfl := Word.take?_eq_some_iff.mp hw
        split at h
        · cases h
        · next hchecks =>
          simp only [UInt32.lt_iff_toNat_lt, UInt32.reduceToNat, List.length_cons,
            List.length_append, Word.length_bytes, not_or, not_lt] at hchecks
          -- The section is no longer than what is left, so its reader gets all of its body.
          have htake : (rest₂.take (size.toNat - 8)).length + 8 = size.toNat := by
            rw [List.length_take]
            omega
          split at h
          · cases h
          · next found₁ hr =>
            obtain ⟨s, hs, hm, hb⟩ := readSection_split htake.symm hr
            obtain ⟨ss, rfl, hss, hrest⟩ := ih h
            have hlen : s.length = size.toNat := by rw [← s.length_body, hb, htake]
            have hl : s.length < 2 ^ 32 := hlen ▸ size.toNat_lt
            obtain rfl : s.size = size :=
              UInt32.toNat_inj.mp ((Section.toNat_size hl).trans hlen)
            refine ⟨s :: ss, rfl, List.forall_mem_cons.mpr ⟨⟨hs, hl⟩, hss⟩, ?_⟩
            rw [List.flatMap_cons, List.append_assoc, ← hrest, Section.bytes, hm, hb]
            simp only [List.append_assoc, List.take_append_drop]
            rfl
    · cases h

theorem readHeader_split {data : Bytes} {h : Header} (hr : readHeader data = (h, none)) :
    h.magic = fileMagic ∧ h.version = version ∧ h.size.toNat = data.length ∧
      ∃ rest, data = h.encode ++ rest := by
  unfold readHeader at hr
  split at hr
  · next a b c d rest =>
    dsimp only at hr
    split at hr
    · cases hr
    · next hm =>
      split at hr
      · cases hr
      · next size rest₁ h₁ =>
        split at hr
        · cases hr
        · next version' rest₂ h₂ =>
          split at hr
          · cases hr
          · next hv =>
            split at hr
            · cases hr
            · next count rest₃ h₃ =>
              split at hr
              · next hl =>
                cases hr
                refine ⟨not_not.mp hm, not_not.mp hv, hl, rest₃, ?_⟩
                rw [Word.take?_eq_some_iff.mp h₁, Word.take?_eq_some_iff.mp h₂,
                  Word.take?_eq_some_iff.mp h₃, Header.encode]
                simp only [List.append_assoc]
                rfl
              · cases hr
  · cases hr

theorem framed_of_read {data : Bytes} {c : Container} (h : read data = .ok c) :
    ∃ ss, Framed ss data := by
  unfold read at h
  split at h
  · cases h
  · next header hh =>
    obtain ⟨hm, hv, hl, rest, hdata⟩ := readHeader_split hh
    split at h
    · cases h
    · next found hr =>
      obtain ⟨ss, hcount, hs, hrest⟩ := readSections_split hr
      have hd : data.drop 16 = rest := by
        rw [hdata]
        apply List.drop_left'
        rw [Header.encode, hm]
        rfl
      rw [hd, List.append_nil] at hrest
      refine ⟨ss, header.size, header.sections, ss.map Section.bytes,
        forall₂_spells_iff.mpr ⟨hs, rfl⟩, ?_, hl, hcount.symm⟩
      rw [← List.flatMap_def, ← hrest, hdata, Header.encode, hm, hv]
      rfl
    · cases h

def IsLast (ss : List Section) (s : Section) : Prop :=
  ∃ before after, ss = before ++ s :: after ∧ ∀ t ∈ after, t.magic ≠ s.magic

theorem IsLast.mem {ss : List Section} {s : Section} (h : IsLast ss s) : s ∈ ss := by
  obtain ⟨before, after, rfl, -⟩ := h
  exact List.mem_append_right before List.mem_cons_self

theorem not_isLast_nil {s : Section} : ¬ IsLast [] s := fun h => List.not_mem_nil h.mem

theorem isLast_concat {ss : List Section} {s t : Section} :
    IsLast (ss ++ [t]) s ↔ s = t ∨ t.magic ≠ s.magic ∧ IsLast ss s := by
  constructor
  · rintro ⟨before, after, he, hne⟩
    rcases List.eq_nil_or_concat after with rfl | ⟨after, u, rfl⟩
    · obtain ⟨-, hst⟩ := List.append_inj' he rfl
      exact .inl (List.singleton_inj.mp hst).symm
    · rw [List.concat_eq_append, ← List.cons_append, ← List.append_assoc] at he
      obtain ⟨rfl, hu⟩ := List.append_inj' he rfl
      obtain rfl := List.singleton_inj.mp hu
      rw [List.concat_eq_append, List.forall_mem_append] at hne
      exact .inr ⟨hne.2 t List.mem_cons_self, before, after, rfl, hne.1⟩
  · rintro (rfl | ⟨hne, before, after, rfl, hafter⟩)
    · exact ⟨ss, [], rfl, fun t ht => absurd ht List.not_mem_nil⟩
    · refine ⟨before, after ++ [t], by simp, ?_⟩
      rw [List.forall_mem_append]
      exact ⟨hafter, fun u hu => List.mem_singleton.mp hu ▸ hne⟩

theorem exists_isLast {ss : List Section} {s : Section} (h : s ∈ ss) :
    ∃ t, t.magic = s.magic ∧ IsLast ss t := by
  induction ss using List.reverseRecOn with
  | nil => exact absurd h List.not_mem_nil
  | append_singleton ss u ih =>
    by_cases hu : u.magic = s.magic
    · exact ⟨u, hu, isLast_concat.mpr (.inl rfl)⟩
    · rcases List.mem_append.mp h with hs | hs
      · obtain ⟨t, ht, hlast⟩ := ih hs
        exact ⟨t, ht, isLast_concat.mpr (.inr ⟨ht ▸ hu, hlast⟩)⟩
      · exact absurd (congrArg Section.magic (List.mem_singleton.mp hs)).symm hu

theorem IsLast.unique {ss : List Section} {s t : Section} (hs : IsLast ss s) (ht : IsLast ss t)
    (hm : s.magic = t.magic) : s = t := by
  induction ss using List.reverseRecOn with
  | nil => exact absurd hs not_isLast_nil
  | append_singleton ss u ih =>
    rcases isLast_concat.mp hs with rfl | ⟨hsu, hs⟩
    · rcases isLast_concat.mp ht with rfl | ⟨htu, -⟩
      · rfl
      · exact absurd hm htu
    · rcases isLast_concat.mp ht with rfl | ⟨-, ht⟩
      · exact absurd hm.symm hsu
      · exact ih hs ht

def Found.Holds (found : Found) : Section → Prop
  | .flow start code => found.flow = some (start, code)
  | .pointers entries => found.pointers = some entries
  | .tempos _ => False
  | .strings data => found.strings = some data

theorem holds_add {found : Found} {s t : Section} (ht : t.Writable) :
    (found.add t).Holds s ↔ s = t ∨ t.magic ≠ s.magic ∧ found.Holds s := by
  cases t
  case tempos entries => exact absurd ht id
  all_goals cases s <;> simp [Found.Holds, Found.add, Section.magic, Section.flowMagic,
    Section.pointersMagic, Section.stringsMagic, eq_comm]

theorem holds_foldl {ss : List Section} {s : Section} (hs : ∀ t ∈ ss, t.Writable) :
    (ss.foldl Found.add {}).Holds s ↔ IsLast ss s := by
  -- From the end, because the section read last is the one that decides about its kind.
  induction ss using List.reverseRecOn with
  | nil => cases s <;> simp [Found.Holds, not_isLast_nil]
  | append_singleton ss t ih =>
    rw [List.forall_mem_append] at hs
    rw [List.foldl_append, List.foldl_cons, List.foldl_nil,
      holds_add (hs.2 t List.mem_cons_self), ih hs.1, isLast_concat]

theorem assemble_eq_ok_iff {found : Found} {c : Container} :
    assemble found = .ok c ↔
      found.Holds (.flow c.start c.code) ∧ found.Holds (.pointers c.pointers) ∧
        found.Holds (.strings c.strings) ∧ c.tempos = [] ∧
        ∀ p ∈ c.pointers, p.offset.toNat + 4 ≤ c.code.length := by
  obtain ⟨start, code, pointers, tempos, strings⟩ := c
  obtain ⟨flow, table, text⟩ := found
  constructor
  · intro h
    unfold assemble at h
    split at h
    · next start' code' pointers' strings' hf hp hs =>
      split at h
      · cases h
      · next hn =>
        cases h
        refine ⟨hf, hp, hs, rfl, fun p hm => ?_⟩
        have := List.find?_eq_none.mp hn p hm
        simpa [Pointer.fits] using this
    · cases h
  · rintro ⟨hf, hp, hs, rfl, hfits⟩
    cases hf
    cases hp
    cases hs
    exact assemble_of_fits hfits

/-- The contents of the last section of each kind, with every pointer inside the code. -/
structure Yields (ss : List Section) (c : Container) : Prop where
  flow : IsLast ss (.flow c.start c.code)
  pointers : IsLast ss (.pointers c.pointers)
  strings : IsLast ss (.strings c.strings)
  tempos : c.tempos = []
  inside : ∀ p ∈ c.pointers, p.offset.toNat + 4 ≤ c.code.length

theorem read_framed {ss : List Section} {data : Bytes} {c : Container} (h : Framed ss data) :
    read data = .ok c ↔ Yields ss c := by
  obtain ⟨hs, hl, rfl⟩ := framed_iff.mp h
  rw [read_sectionsBytes hs hl, assemble_eq_ok_iff]
  simp only [holds_foldl hs]
  constructor
  · rintro ⟨hf, hp, hd, ht, hi⟩
    exact ⟨hf, hp, hd, ht, hi⟩
  · rintro ⟨hf, hp, hd, ht, hi⟩
    exact ⟨hf, hp, hd, ht, hi⟩

/-- All kinds occur, and the pointers that count lie inside the code that counts. -/
structure Complete (ss : List Section) : Prop where
  flow : ∃ start code, .flow start code ∈ ss
  pointers : ∃ entries, .pointers entries ∈ ss
  strings : ∃ data, .strings data ∈ ss
  inside : ∀ start code entries, IsLast ss (.flow start code) → IsLast ss (.pointers entries) →
    ∀ p ∈ entries, p.offset.toNat + 4 ≤ code.length

theorem complete_iff {ss : List Section} : Complete ss ↔ ∃ c, Yields ss c := by
  constructor
  · intro h
    obtain ⟨_, _, hf⟩ := h.flow
    obtain ⟨_, hp⟩ := h.pointers
    obtain ⟨_, hs⟩ := h.strings
    obtain ⟨f, hfm, hf⟩ := exists_isLast hf
    obtain ⟨p, hpm, hp⟩ := exists_isLast hp
    obtain ⟨s, hsm, hs⟩ := exists_isLast hs
    obtain ⟨start, code, rfl⟩ := Section.magic_eq_flowMagic_iff.mp hfm
    obtain ⟨pointers, rfl⟩ := Section.magic_eq_pointersMagic_iff.mp hpm
    obtain ⟨strings, rfl⟩ := Section.magic_eq_stringsMagic_iff.mp hsm
    exact ⟨{ start, code, pointers, strings }, hf, hp, hs, rfl, h.inside start code pointers hf hp⟩
  · rintro ⟨c, hc⟩
    refine ⟨⟨_, _, hc.flow.mem⟩, ⟨_, hc.pointers.mem⟩, ⟨_, hc.strings.mem⟩, ?_⟩
    intro start code entries hf hp
    obtain ⟨-, rfl⟩ := Section.flow.inj (hf.unique hc.flow rfl)
    obtain rfl := Section.pointers.inj (hp.unique hc.pointers rfl)
    exact hc.inside

/-- A byte string is read if and only if it is a header and well-formed sections, of every kind at
least one, whose last pointers lie inside the last code. There is one way to see it so, and the
last section of each kind is what is returned. -/
theorem read_accepts_grammar (data : Bytes) :
    ((∃ c, read data = .ok c) ↔ ∃ ss, Framed ss data ∧ Complete ss) ∧
      (∀ ss ts, Framed ss data → Framed ts data → ss = ts) ∧
      ∀ ss c, Framed ss data → (read data = .ok c ↔ Yields ss c) := by
  refine ⟨⟨?_, ?_⟩, fun ss ts => Framed.unique, fun ss c => read_framed⟩
  · rintro ⟨c, hc⟩
    obtain ⟨ss, hs⟩ := framed_of_read hc
    exact ⟨ss, hs, complete_iff.mpr ⟨c, (read_framed hs).mp hc⟩⟩
  · rintro ⟨ss, hs, hcomplete⟩
    obtain ⟨c, hc⟩ := complete_iff.mp hcomplete
    exact ⟨c, (read_framed hs).mpr hc⟩

/-- Different sections of a file take different bytes of it. -/
theorem totalLength_le_of_subset {ss ts : List Section} (hn : ts.Nodup) (h : ts ⊆ ss) :
    totalLength ts ≤ totalLength ss := by
  obtain ⟨us, hperm, hsub⟩ := List.subperm_of_subset hn h
  have hsum := (hperm.map Section.length).sum_eq
  have hle := (hsub.map Section.length).sum_le_sum fun n _ => Nat.zero_le n
  simp only [totalLength]
  omega

theorem encodedLength_le {ss : List Section} {c : Container} (h : Yields ss c) :
    c.encodedLength ≤ totalLength ss := by
  rw [← totalLength_sections h.tempos, sections_eq h.tempos]
  apply totalLength_le_of_subset
  · simp
  · intro s hs
    simp only [List.mem_cons, List.not_mem_nil, or_false] at hs
    rcases hs with rfl | rfl | rfl
    · exact h.flow.mem
    · exact h.pointers.mem
    · exact h.strings.mem

/-- In the order in which sections are written. -/
def InOrder (ss : List Section) : Prop :=
  ss.map Section.magic = [Section.flowMagic, Section.pointersMagic, Section.stringsMagic]

instance (ss : List Section) : Decidable (InOrder ss) := inferInstanceAs (Decidable (_ = _))

theorem sections_eq_of_inOrder {ss : List Section} {c : Container} (h : Yields ss c)
    (ho : InOrder ss) : c.sections = ss := by
  have hlen : ss.length = 3 := by rw [← List.length_map Section.magic, ho]; rfl
  obtain ⟨f, p, s, rfl⟩ := List.length_eq_three.mp hlen
  simp only [InOrder, List.map_cons, List.map_nil, List.cons.injEq,
    Section.magic_eq_flowMagic_iff, Section.magic_eq_pointersMagic_iff,
    Section.magic_eq_stringsMagic_iff, and_true] at ho
  obtain ⟨⟨start, code, rfl⟩, ⟨entries, rfl⟩, ⟨data, rfl⟩⟩ := ho
  have hf := h.flow.mem
  have hp := h.pointers.mem
  have hs := h.strings.mem
  simp only [List.mem_cons, List.not_mem_nil, Section.flow.injEq, Section.pointers.injEq,
    Section.strings.injEq, reduceCtorEq, or_false, false_or] at hf hp hs
  rw [sections_eq h.tempos, hf.1, hf.2, hp, hs]

theorem framed_encoded {c : Container} (ht : c.tempos = []) (hl : c.encodedLength < 2 ^ 32) :
    Framed c.sections (sectionsBytes c.sections) :=
  framed_iff.mpr ⟨writable_of_mem_sections ht, by rwa [totalLength_sections ht], rfl⟩

/-- A container that was read is written anew in no more bytes, from which it is read again. These
are the bytes it came from exactly if its sections stood in order, each once. -/
theorem encode_normalizes {data : Bytes} {c : Container} (h : read data = .ok c) :
    ∃ out, c.encode = .ok out ∧ out.length ≤ data.length ∧ read out = .ok c ∧
      (out = data ↔ ∃ ss, Framed ss data ∧ InOrder ss) := by
  obtain ⟨ss, hs⟩ := framed_of_read h
  have hy := (read_framed hs).mp h
  obtain ⟨-, hl, hdata⟩ := framed_iff.mp hs
  have hlen : (sectionsBytes c.sections).length = c.encodedLength := by
    rw [length_sectionsBytes, totalLength_sections hy.tempos]
  have hle := encodedLength_le hy
  have hshort : c.encodedLength < 2 ^ 32 := hle.trans_lt hl
  refine ⟨sectionsBytes c.sections, encode_eq_ok hy.tempos, ?_, ?_, ?_, ?_⟩
  · rwa [hlen, hdata, length_sectionsBytes]
  · rw [read_encoded hy.tempos hshort, assemble_of_fits hy.inside, ← hy.tempos]
  · intro he
    refine ⟨c.sections, he ▸ framed_encoded hy.tempos hshort, ?_⟩
    rw [InOrder, sections_eq hy.tempos]
    rfl
  · rintro ⟨ts, ht, ho⟩
    rw [hs.unique ht] at hdata hy
    rw [sections_eq_of_inOrder hy ho, hdata]

def disordered : List Section :=
  [.strings [65, 0], .pointers [⟨9, ⟨7⟩⟩], .flow 4 [1, 2, 3, 4, 5, 6, 7, 8],
    .pointers [⟨4, ⟨0⟩⟩, ⟨0, ⟨1⟩⟩], .strings [66, 67, 0]]

def settled : Container where
  start := 4
  code := [1, 2, 3, 4, 5, 6, 7, 8]
  pointers := [⟨4, ⟨0⟩⟩, ⟨0, ⟨1⟩⟩]
  strings := [66, 67, 0]

theorem encode_normalizes_disordered :
    read (sectionsBytes disordered) = .ok settled ∧
      (∃ out, settled.encode = .ok out ∧ out.length ≤ (sectionsBytes disordered).length ∧
        read out = .ok settled ∧ out ≠ sectionsBytes disordered) ∧
      ∃ out, settled.encode = .ok out ∧ read out = .ok settled ∧
        out = sectionsBytes settled.sections := by
  have hw : ∀ s ∈ disordered, s.Writable := by simp [disordered, Section.Writable]
  have hd : read (sectionsBytes disordered) = .ok settled := by
    rw [read_sectionsBytes hw (by decide)]
    rfl
  have hs : read (sectionsBytes settled.sections) = .ok settled := by
    rw [read_encoded rfl (by decide)]
    rfl
  obtain ⟨out, he, hl, hr, hiff⟩ := encode_normalizes hd
  obtain ⟨out', he', -, hr', hiff'⟩ := encode_normalizes hs
  refine ⟨hd, ⟨out, he, hl, hr, ?_⟩, out', he', hr', ?_⟩
  · intro heq
    obtain ⟨ss, hf, ho⟩ := hiff.mp heq
    rw [hf.unique (framed_iff.mpr ⟨hw, by decide, rfl⟩)] at ho
    exact absurd ho (by decide)
  · exact hiff'.mpr ⟨_, framed_encoded rfl (by decide), rfl⟩

end FlowPack.Container
