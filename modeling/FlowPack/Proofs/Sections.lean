import FlowPack.Proofs.Containers
import Mathlib.Data.List.Forall2

namespace FlowPack.Container

open Script (Pointer)

namespace Section

inductive Contents : Section → Bytes → Prop where
  | flow (start : UInt32) (code : Bytes) : Contents (.flow start code) (Word.bytes start ++ code)
  | pointers {count : UInt32} {entries : List Pointer} (h : count.toNat = entries.length) :
    Contents (.pointers entries) (Word.bytes count ++ entries.flatMap pointerBytes)
  | strings (data : Bytes) : Contents (.strings data) data

/-- The magic, the section's own length as a word, and the contents. -/
def Spells (s : Section) (data : Bytes) : Prop :=
  ∃ (size : UInt32) (contents : Bytes), s.Contents contents ∧
    data = s.magic ++ Word.bytes size ++ contents ∧ size.toNat = data.length

structure Sized (s : Section) : Prop where
  writable : s.Writable
  short : s.length < 2 ^ 32

theorem Contents.eq_body {s : Section} {contents : Bytes} (h : s.Contents contents) :
    s.Writable ∧ contents = s.body := by
  cases h with
  | flow start code => exact ⟨trivial, rfl⟩
  | pointers hc =>
    refine ⟨trivial, ?_⟩
    rw [body, ← hc, UInt32.ofNat_toNat]
  | strings data => exact ⟨trivial, rfl⟩

theorem contents_body {s : Section} (hs : s.Sized) : s.Contents s.body := by
  cases s with
  | flow start code => exact .flow start code
  | pointers entries =>
    have hl := hs.short
    simp only [length] at hl
    exact .pointers (UInt32.toNat_ofNat_of_lt' (show entries.length < 2 ^ 32 by omega))
  | tempos entries => exact absurd hs.writable id
  | strings data => exact .strings data

theorem spells_iff {s : Section} {data : Bytes} :
    s.Spells data ↔ s.Sized ∧ data = s.bytes := by
  constructor
  · rintro ⟨size, contents, hc, rfl, hsize⟩
    obtain ⟨hs, rfl⟩ := hc.eq_body
    have hlen : size.toNat = s.length := by
      rw [hsize, List.length_append, List.length_append, length_magic, Word.length_bytes,
        ← length_body]
      omega
    have hl : s.length < 2 ^ 32 := hlen ▸ size.toNat_lt
    obtain rfl : size = s.size := UInt32.toNat_inj.mp (hlen.trans (toNat_size hl).symm)
    exact ⟨⟨hs, hl⟩, rfl⟩
  · rintro ⟨hs, rfl⟩
    exact ⟨s.size, s.body, contents_body hs, rfl, by rw [toNat_size hs.short, length_bytes]⟩

end Section

/-- A header with the length of the file and the number of sections, and the sections. -/
def Framed (ss : List Section) (data : Bytes) : Prop :=
  ∃ (size count : UInt32) (pieces : List Bytes), List.Forall₂ Section.Spells ss pieces ∧
    data = fileMagic ++ Word.bytes size ++ Word.bytes 0 ++ Word.bytes count ++ pieces.flatten ∧
    size.toNat = data.length ∧ count.toNat = ss.length

theorem sized_of_totalLength {ss : List Section} (hs : ∀ s ∈ ss, s.Writable)
    (hl : totalLength ss < 2 ^ 32) : ∀ s ∈ ss, s.Sized :=
  fun s hm => ⟨hs s hm, (length_le_totalLength hm).trans_lt hl⟩

theorem forall₂_spells_iff {ss : List Section} {pieces : List Bytes} :
    List.Forall₂ Section.Spells ss pieces ↔
      (∀ s ∈ ss, s.Sized) ∧ pieces = ss.map Section.bytes := by
  induction ss generalizing pieces with
  | nil => simp
  | cons s ss ih =>
    simp only [List.forall₂_cons_left_iff, ih, Section.spells_iff, List.forall_mem_cons,
      List.map_cons]
    constructor
    · rintro ⟨_, _, ⟨hs, rfl⟩, ⟨hss, rfl⟩, rfl⟩
      exact ⟨⟨hs, hss⟩, rfl⟩
    · rintro ⟨⟨hs, hss⟩, rfl⟩
      exact ⟨_, _, ⟨hs, rfl⟩, ⟨hss, rfl⟩, rfl⟩

theorem sectionsBytes_eq (ss : List Section) :
    sectionsBytes ss = fileMagic ++ Word.bytes (UInt32.ofNat (totalLength ss)) ++ Word.bytes 0 ++
      Word.bytes (UInt32.ofNat ss.length) ++ (ss.map Section.bytes).flatten := by
  rw [sectionsBytes, Header.encode, size_headerOf, List.flatMap_def]
  rfl

/-- Well-formed files are what is written of short enough sections. -/
theorem framed_iff {ss : List Section} {data : Bytes} :
    Framed ss data ↔
      (∀ s ∈ ss, s.Writable) ∧ totalLength ss < 2 ^ 32 ∧ data = sectionsBytes ss := by
  constructor
  · rintro ⟨size, count, pieces, hp, rfl, hsize, hcount⟩
    obtain ⟨hs, rfl⟩ := forall₂_spells_iff.mp hp
    have hlen : size.toNat = totalLength ss := by
      rw [hsize, ← List.flatMap_def]
      simp only [List.length_append, Word.length_bytes, length_flatMap_sectionBytes, totalLength]
      rfl
    refine ⟨fun s hm => (hs s hm).writable, hlen ▸ size.toNat_lt, ?_⟩
    rw [sectionsBytes_eq, ← hlen, ← hcount, UInt32.ofNat_toNat, UInt32.ofNat_toNat]
  · rintro ⟨hs, hl, rfl⟩
    refine ⟨UInt32.ofNat (totalLength ss), UInt32.ofNat ss.length, ss.map Section.bytes, ?_,
      sectionsBytes_eq ss, ?_, UInt32.toNat_ofNat_of_lt' ((count_le_totalLength ss).trans_lt hl)⟩
    · exact forall₂_spells_iff.mpr ⟨sized_of_totalLength hs hl, rfl⟩
    · rw [length_sectionsBytes, UInt32.toNat_ofNat_of_lt' hl]

namespace Section

section Kinds

variable {s : Section}

theorem magic_eq_flowMagic_iff : s.magic = flowMagic ↔ ∃ start code, s = .flow start code := by
  cases s <;> simp [magic, flowMagic, pointersMagic, temposMagic, stringsMagic]

theorem magic_eq_pointersMagic_iff :
    s.magic = pointersMagic ↔ ∃ entries, s = .pointers entries := by
  cases s <;> simp [magic, flowMagic, pointersMagic, temposMagic, stringsMagic]

theorem magic_eq_stringsMagic_iff : s.magic = stringsMagic ↔ ∃ data, s = .strings data := by
  cases s <;> simp [magic, flowMagic, pointersMagic, temposMagic, stringsMagic]

end Kinds

theorem eq_of_magic_of_body {s t : Section} (hs : s.Writable) (hm : s.magic = t.magic)
    (hb : s.body = t.body) : s = t := by
  cases s with
  | flow start code =>
    obtain ⟨start', code', rfl⟩ := magic_eq_flowMagic_iff.mp hm.symm
    obtain ⟨rfl, rfl⟩ := Word.bytes_append_inj hb
    rfl
  | pointers entries =>
    obtain ⟨entries', rfl⟩ := magic_eq_pointersMagic_iff.mp hm.symm
    have he := congrArg readPointers (Word.bytes_append_inj hb).2
    rw [readPointers_flatMap, readPointers_flatMap] at he
    rw [he]
  | tempos entries => exact absurd hs id
  | strings data =>
    obtain ⟨data', rfl⟩ := magic_eq_stringsMagic_iff.mp hm.symm
    exact congrArg strings hb

theorem bytes_append_inj {s t : Section} {x y : Bytes} (hs : s.Sized) (ht : t.Sized)
    (h : s.bytes ++ x = t.bytes ++ y) : s = t ∧ x = y := by
  simp only [bytes, List.append_assoc] at h
  obtain ⟨hm, h⟩ := List.append_inj h (by rw [length_magic, length_magic])
  obtain ⟨hsize, h⟩ := Word.bytes_append_inj h
  have hlen : s.body.length = t.body.length := by
    have he : s.length = t.length := by rw [← toNat_size hs.short, ← toNat_size ht.short, hsize]
    rw [← length_body, ← length_body] at he
    omega
  obtain ⟨hb, hxy⟩ := List.append_inj h hlen
  exact ⟨eq_of_magic_of_body hs.writable hm hb, hxy⟩

end Section

theorem flatMap_sectionBytes_inj {ss ts : List Section} (hs : ∀ s ∈ ss, s.Sized)
    (ht : ∀ t ∈ ts, t.Sized)
    (h : ss.flatMap Section.bytes = ts.flatMap Section.bytes) : ss = ts := by
  have hne : ∀ (s : Section) (x : Bytes), s.bytes ++ x ≠ [] := by
    intro s x he
    have hlen := congrArg List.length he
    rw [List.length_append, s.length_bytes, ← s.length_body, List.length_nil] at hlen
    omega
  induction ss generalizing ts with
  | nil =>
    cases ts with
    | nil => rfl
    | cons t ts => exact absurd h.symm (hne t _)
  | cons s ss ih =>
    cases ts with
    | nil => exact absurd h (hne s _)
    | cons t ts =>
      rw [List.forall_mem_cons] at hs ht
      obtain ⟨rfl, hrest⟩ := Section.bytes_append_inj hs.1 ht.1 h
      rw [ih hs.2 ht.2 hrest]

theorem Framed.unique {ss ts : List Section} {data : Bytes} (hs : Framed ss data)
    (ht : Framed ts data) : ss = ts := by
  obtain ⟨hsw, hsl, hsb⟩ := framed_iff.mp hs
  obtain ⟨htw, htl, htb⟩ := framed_iff.mp ht
  apply flatMap_sectionBytes_inj (sized_of_totalLength hsw hsl) (sized_of_totalLength htw htl)
  -- The headers are equally long, so what follows them is the same.
  exact (List.append_inj (hsb.symm.trans htb) rfl).2

end FlowPack.Container
