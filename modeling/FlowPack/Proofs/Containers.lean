import FlowPack.Container.Reader
import FlowPack.Proofs.Words
import Mathlib.Algebra.Order.BigOperators.Group.List
import Mathlib.Algebra.Order.Group.Nat

namespace FlowPack.Container

open Script (Pointer)

namespace Section

def length : Section → Nat
  | flow _ code => 12 + code.length
  | pointers entries => 12 + 5 * entries.length
  | tempos _ => 8
  | strings data => 8 + data.length

def body : Section → Bytes
  | flow start code => Word.bytes start ++ code
  | pointers entries =>
    Word.bytes (UInt32.ofNat entries.length) ++ entries.flatMap pointerBytes
  | tempos _ => []
  | strings data => data

def bytes (s : Section) : Bytes := s.magic ++ Word.bytes s.size ++ s.body

def Writable : Section → Prop
  | tempos _ => False
  | _ => True

end Section

theorem length_flatMap_pointerBytes (ps : List Pointer) :
    (ps.flatMap pointerBytes).length = 5 * ps.length := by
  induction ps with
  | nil => rfl
  | cons p ps ih =>
    rw [List.flatMap_cons, List.length_append, ih, List.length_cons, pointerBytes,
      List.length_append, Word.length_bytes]
    simp only [List.length_cons, List.length_nil]
    omega

theorem readPointers_flatMap (ps : List Pointer) : readPointers (ps.flatMap pointerBytes) = ps := by
  induction ps with
  | nil => rfl
  | cons p ps ih =>
    rw [List.flatMap_cons, pointerBytes, Word.bytes]
    simp only [List.cons_append, List.nil_append, readPointers, ih, Word.ofBytes_bytes]

namespace Section

@[simp] theorem length_magic (s : Section) : s.magic.length = 4 := by
  cases s <;> rfl

theorem length_body (s : Section) : s.body.length + 8 = s.length := by
  cases s with
  | flow start code => simp [body, length]; omega
  | pointers entries =>
    rw [body, List.length_append, Word.length_bytes, length_flatMap_pointerBytes, length]
    omega
  | tempos entries => rfl
  | strings data => simp [body, length]; omega

theorem length_bytes (s : Section) : s.bytes.length = s.length := by
  rw [bytes, List.length_append, List.length_append, length_magic, Word.length_bytes,
    ← length_body]
  omega

/-- Sizes are computed in words, so the declared size is the length reduced to a word. -/
theorem size_eq_ofNat_length (s : Section) : s.size = UInt32.ofNat s.length := by
  cases s with
  | flow start code => simp [size, length]
  | pointers entries => simp [size, length]
  | tempos entries => rfl
  | strings data => simp [size, length]

theorem toNat_size {s : Section} (h : s.length < 2 ^ 32) : s.size.toNat = s.length := by
  rw [size_eq_ofNat_length, UInt32.toNat_ofNat_of_lt' h]

theorem parts?_append {s : Section} (hs : s.Writable) :
    ∃ lead rest, s.parts? = some (lead, rest) ∧ lead ++ rest = s.bytes := by
  cases s with
  | flow start code => exact ⟨_, _, rfl, List.append_assoc ..⟩
  | pointers entries => exact ⟨_, _, rfl, List.append_assoc ..⟩
  | tempos entries => exact absurd hs id
  | strings data => exact ⟨_, _, rfl, rfl⟩

end Section

theorem encodeSection_eq_ok {s : Section} (hs : s.Writable) : encodeSection s = .ok s.bytes := by
  obtain ⟨lead, rest, hp, hb⟩ := Section.parts?_append hs
  have hw : UInt32.ofNat s.bytes.length = s.size := by
    rw [Section.length_bytes, Section.size_eq_ofNat_length]
  simp only [encodeSection, hp, hb, hw, if_true]

theorem mapM_encodeSection {ss : List Section} (hs : ∀ s ∈ ss, s.Writable) :
    ss.mapM encodeSection = .ok (ss.map Section.bytes) := by
  induction ss with
  | nil => rfl
  | cons s ss ih =>
    rw [List.mapM_cons, encodeSection_eq_ok (hs s List.mem_cons_self),
      ih fun t ht => hs t (List.mem_cons_of_mem s ht)]
    rfl

def totalLength (ss : List Section) : Nat := 16 + (ss.map Section.length).sum

def sectionsBytes (ss : List Section) : Bytes :=
  (headerOf ss).encode ++ ss.flatMap Section.bytes

theorem foldl_size (ss : List Section) (n : Nat) :
    ss.foldl (fun m s => m + s.size) (UInt32.ofNat n) =
      UInt32.ofNat (n + (ss.map Section.length).sum) := by
  induction ss generalizing n with
  | nil => rfl
  | cons s ss ih =>
    rw [List.foldl_cons, Section.size_eq_ofNat_length, ← UInt32.ofNat_add, ih, List.map_cons,
      List.sum_cons, Nat.add_assoc]

theorem size_headerOf (ss : List Section) :
    (headerOf ss).size = UInt32.ofNat (totalLength ss) := foldl_size ss 16

theorem length_encode_header (ss : List Section) : (headerOf ss).encode.length = 16 := rfl

theorem length_flatMap_sectionBytes (ss : List Section) :
    (ss.flatMap Section.bytes).length = (ss.map Section.length).sum := by
  simp only [List.length_flatMap, Section.length_bytes]

theorem length_sectionsBytes (ss : List Section) :
    (sectionsBytes ss).length = totalLength ss := by
  rw [sectionsBytes, List.length_append, length_encode_header, length_flatMap_sectionBytes,
    totalLength]

theorem encodeSections_eq_ok {ss : List Section} (hs : ∀ s ∈ ss, s.Writable) :
    encodeSections ss = .ok (sectionsBytes ss) := by
  have hw : UInt32.ofNat (sectionsBytes ss).length = (headerOf ss).size := by
    rw [length_sectionsBytes, size_headerOf]
  simp only [encodeSections, mapM_encodeSection hs, bind, Except.bind, ← List.flatMap_def]
  exact if_pos hw

def Found.add (found : Found) : Section → Found
  | .flow start code => { found with flow := some (start, code) }
  | .pointers entries => { found with pointers := some entries }
  | .tempos _ => found
  | .strings data => { found with strings := some data }

theorem readSection_body (found : Found) {s : Section} (offset : Nat) (hs : s.Writable)
    (hl : s.length < 2 ^ 32) :
    readSection found s.magic offset s.size s.body = .ok (found.add s) := by
  cases s with
  | flow start code => simp [readSection, Section.magic, Section.body, Found.add]
  | pointers entries =>
    have hn : entries.length < 2 ^ 32 := by simp only [Section.length] at hl; omega
    have hc : (UInt32.ofNat entries.length).toNat = entries.length :=
      UInt32.toNat_ofNat_of_lt' hn
    have hsize : (Section.pointers entries).size.toNat = 12 + 5 * entries.length :=
      Section.toNat_size hl
    have hf : Section.pointersMagic ≠ Section.flowMagic := by decide
    simp only [readSection, Section.magic, if_neg hf, if_true, Section.body,
      Word.take?_bytes_append, hc, hsize, ne_eq, not_true_eq_false, if_false,
      readPointers_flatMap, Found.add]
  | tempos entries => exact absurd hs id
  | strings data =>
    have hf : Section.stringsMagic ≠ Section.flowMagic := by decide
    have hp : Section.stringsMagic ≠ Section.pointersMagic := by decide
    simp only [readSection, Section.magic, if_neg hf, if_neg hp, if_true, Section.body, Found.add]

theorem readSections_bytes_append (found : Found) {s : Section} (n offset : Nat) (rest : Bytes)
    (hs : s.Writable) (hl : s.length < 2 ^ 32) :
    readSections (n + 1) offset (s.bytes ++ rest) found =
      readSections n (offset + s.length) rest (found.add s) := by
  have hbody := s.length_body
  have hsize := Section.toNat_size hl
  have hchecks : ¬ (s.size < 8 ∨ (s.bytes ++ rest).length < s.size.toNat) := by
    rw [UInt32.lt_iff_toNat_lt, hsize, List.length_append, Section.length_bytes]
    simp only [UInt32.reduceToNat]
    omega
  have hlen : s.size.toNat - 8 = s.body.length := by omega
  have hr := readSection_body found offset hs hl
  obtain ⟨a, b, c, d, hm⟩ : ∃ a b c d, s.magic = [a, b, c, d] := by
    cases s <;> exact ⟨_, _, _, _, rfl⟩
  have hb : s.bytes ++ rest = a :: b :: c :: d :: (Word.bytes s.size ++ (s.body ++ rest)) := by
    simp [Section.bytes, hm]
  rw [hm] at hr
  rw [hb] at hchecks ⊢
  simp only [readSections, Word.take?_bytes_append, if_neg hchecks, hlen, List.take_left,
    List.drop_left, hr]
  rw [hsize]

theorem readSections_flatMap {ss : List Section} (found : Found) (offset : Nat) (rest : Bytes)
    (hs : ∀ s ∈ ss, s.Writable) (hl : ∀ s ∈ ss, s.length < 2 ^ 32) :
    readSections ss.length offset (ss.flatMap Section.bytes ++ rest) found =
      .ok (ss.foldl Found.add found, rest) := by
  induction ss generalizing found offset with
  | nil => rfl
  | cons s ss ih =>
    rw [List.length_cons, List.flatMap_cons, List.append_assoc,
      readSections_bytes_append found ss.length offset _ (hs s List.mem_cons_self)
        (hl s List.mem_cons_self),
      ih (found.add s) _ (fun t ht => hs t (List.mem_cons_of_mem s ht))
        (fun t ht => hl t (List.mem_cons_of_mem s ht))]
    rfl

theorem readHeader_encode {h : Header} {rest : Bytes} (hm : h.magic = fileMagic)
    (hv : h.version = version) (hl : h.size.toNat = (h.encode ++ rest).length) :
    readHeader (h.encode ++ rest) = (h, none) := by
  obtain ⟨magic, size, version', count⟩ := h
  obtain rfl : magic = fileMagic := hm
  obtain rfl : version' = version := hv
  have he : (⟨fileMagic, size, version, count⟩ : Header).encode ++ rest =
      0x42 :: 0x54 :: 0x4B :: 0x53 :: (Word.bytes size ++ (Word.bytes version ++
        (Word.bytes count ++ rest))) := by
    simp [Header.encode, fileMagic]
  rw [he] at hl ⊢
  have hmagic : ([0x42, 0x54, 0x4B, 0x53] : Bytes) = fileMagic := rfl
  simp only [readHeader, hmagic, Word.take?_bytes_append, ne_eq, not_true_eq_false, if_false,
    ← hl, if_true]

theorem length_le_totalLength {s : Section} {ss : List Section} (h : s ∈ ss) :
    s.length ≤ totalLength ss := by
  have := List.le_sum_of_mem (List.mem_map_of_mem h : s.length ∈ ss.map Section.length)
  rw [totalLength]
  omega

theorem count_le_totalLength (ss : List Section) : ss.length ≤ totalLength ss := by
  induction ss with
  | nil => exact Nat.zero_le _
  | cons s ss ih =>
    have hb := s.length_body
    simp only [totalLength, List.length_cons, List.map_cons, List.sum_cons] at ih ⊢
    omega

theorem read_sectionsBytes {ss : List Section} (hs : ∀ s ∈ ss, s.Writable)
    (hl : totalLength ss < 2 ^ 32) :
    read (sectionsBytes ss) = assemble (ss.foldl Found.add {}) := by
  have hshort : ∀ s ∈ ss, s.length < 2 ^ 32 := fun s hm => (length_le_totalLength hm).trans_lt hl
  have hh : readHeader (sectionsBytes ss) = (headerOf ss, none) := by
    apply readHeader_encode rfl rfl
    rw [size_headerOf, UInt32.toNat_ofNat_of_lt' hl]
    exact (length_sectionsBytes ss).symm
  have hcount : (headerOf ss).sections.toNat = ss.length :=
    UInt32.toNat_ofNat_of_lt' ((count_le_totalLength ss).trans_lt hl)
  have hr := readSections_flatMap {} 16 [] hs hshort
  rw [List.append_nil] at hr
  have hd : (sectionsBytes ss).drop 16 = ss.flatMap Section.bytes :=
    List.drop_left' (length_encode_header ss)
  rw [read, hh]
  dsimp only
  rw [hcount, hd, hr]

def encodedLength (c : Container) : Nat :=
  48 + c.code.length + 5 * c.pointers.length + c.strings.length

section WithoutTempos

variable {c : Container} (ht : c.tempos = [])

include ht

theorem sections_eq :
    c.sections = [.flow c.start c.code, .pointers c.pointers, .strings c.strings] := by
  rw [sections, ht]
  rfl

theorem totalLength_sections : totalLength c.sections = c.encodedLength := by
  simp only [sections_eq ht, totalLength, List.map_cons, List.map_nil, List.sum_cons,
    List.sum_nil, Section.length, encodedLength]
  omega

theorem writable_of_mem_sections : ∀ s ∈ c.sections, s.Writable := by
  simp [sections_eq ht, Section.Writable]

theorem encode_eq_ok : c.encode = .ok (sectionsBytes c.sections) := by
  rw [encode, ht, List.isEmpty_nil, if_pos rfl]
  exact encodeSections_eq_ok (writable_of_mem_sections ht)

theorem read_encoded (hl : c.encodedLength < 2 ^ 32) :
    read (sectionsBytes c.sections) =
      assemble ⟨some (c.start, c.code), some c.pointers, some c.strings⟩ := by
  rw [read_sectionsBytes (writable_of_mem_sections ht) (by rwa [totalLength_sections ht]),
    sections_eq ht]
  rfl

end WithoutTempos

theorem assemble_of_fits {start : UInt32} {code strings : Bytes} {pointers : List Pointer}
    (h : ∀ p ∈ pointers, p.offset.toNat + 4 ≤ code.length) :
    assemble ⟨some (start, code), some pointers, some strings⟩ =
      .ok { start, code, pointers, strings } := by
  have hn : pointers.find? (fun p => !p.fits code.length) = none := by
    rw [List.find?_eq_none]
    intro p hp
    simpa [Pointer.fits] using h p hp
  simp only [assemble, hn]

theorem assemble_of_outside (start : UInt32) {code : Bytes} {pointers : List Pointer}
    (strings : Bytes) (h : ∃ p ∈ pointers, code.length < p.offset.toNat + 4) :
    ∃ p ∈ pointers, code.length < p.offset.toNat + 4 ∧
      assemble ⟨some (start, code), some pointers, some strings⟩ =
        .error (.pointerOutside p.offset) := by
  cases hf : pointers.find? fun p => !p.fits code.length with
  | none =>
    obtain ⟨p, hp, ho⟩ := h
    have := List.find?_eq_none.mp hf p hp
    simp only [Pointer.fits, Bool.not_eq_true', decide_eq_false_iff_not] at this
    omega
  | some p =>
    have hp := List.find?_some hf
    simp only [Pointer.fits, Bool.not_eq_true', decide_eq_false_iff_not, not_le] at hp
    exact ⟨p, List.mem_of_find?_eq_some hf, hp, by simp only [assemble, hf]⟩

/-- A container short enough for its sizes to be words is read back as it was written. A pointer
outside the code can be written but makes the result unreadable. -/
theorem read_undoes_encode (c : Container) (ht : c.tempos = []) (hl : c.encodedLength < 2 ^ 32) :
    ∃ data, c.encode = .ok data ∧ data.length = c.encodedLength ∧
      ((∀ p ∈ c.pointers, p.offset.toNat + 4 ≤ c.code.length) → read data = .ok c) ∧
      ((∃ p ∈ c.pointers, c.code.length < p.offset.toNat + 4) →
        ∃ e, read data = .error e ∧ e.cause = .corrupt) := by
  have hr := read_encoded ht hl
  refine ⟨sectionsBytes c.sections, encode_eq_ok ht, ?_, ?_, ?_⟩
  · rw [length_sectionsBytes, totalLength_sections ht]
  · intro hfits
    rw [hr, assemble_of_fits hfits, ← ht]
  · intro houtside
    obtain ⟨p, -, -, he⟩ := assemble_of_outside c.start c.strings houtside
    exact ⟨.pointerOutside p.offset, hr.trans he, rfl⟩

def shuffled (last : UInt32) : Container where
  start := 4
  code := [1, 2, 3, 4, 5, 6, 7, 8]
  pointers := [⟨4, ⟨255⟩⟩, ⟨1, ⟨0⟩⟩, ⟨last, ⟨1⟩⟩]
  strings := [65, 0]

theorem read_undoes_encode_shuffled :
    (∃ data, (shuffled 4).encode = .ok data ∧ read data = .ok (shuffled 4)) ∧
      ∃ data e, (shuffled 5).encode = .ok data ∧ read data = .error e ∧ e.cause = .corrupt := by
  obtain ⟨data, he, -, hr, -⟩ := read_undoes_encode (shuffled 4) rfl (by decide)
  obtain ⟨data', he', -, -, hr'⟩ := read_undoes_encode (shuffled 5) rfl (by decide)
  obtain ⟨e, hread, hcause⟩ := hr' (by decide)
  exact ⟨⟨data, he, hr (by decide)⟩, data', e, he', hread, hcause⟩

end FlowPack.Container
