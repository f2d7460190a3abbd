import FlowPack.Proofs.Containers

namespace FlowPack.Container

def DeclaresLength (data : Bytes) : Prop :=
  ∃ size, Word.at? data 4 = some size ∧ size.toNat = data.length

/-- The word behind the magic bytes is the number of the bytes as far as a word can hold it. -/
def DeclaresWrapped (data : Bytes) : Prop :=
  Word.at? data 4 = some (UInt32.ofNat data.length)

theorem DeclaresWrapped.declaresLength_iff {data : Bytes} (h : DeclaresWrapped data) :
    DeclaresLength data ↔ data.length < 2 ^ 32 := by
  constructor
  · rintro ⟨size, -, hlen⟩
    rw [← hlen]
    exact size.toNat_lt
  · intro hl
    exact ⟨_, h, UInt32.toNat_ofNat_of_lt' hl⟩

theorem at?_behind_magic {magic : Bytes} (hm : magic.length = 4) (size : UInt32) (rest : Bytes) :
    Word.at? (magic ++ Word.bytes size ++ rest) 4 = some size := by
  rw [← hm, List.append_assoc]
  exact Word.at?_append_bytes_append magic rest size

def Section.Writes (s : Section) (piece : Bytes) : Prop :=
  ∃ lead rest, s.parts? = some (lead, rest) ∧ lead ++ rest = piece

theorem Section.declaresWrapped_bytes (s : Section) : DeclaresWrapped s.bytes := by
  rw [DeclaresWrapped, length_bytes, ← size_eq_ofNat_length]
  exact at?_behind_magic s.length_magic s.size s.body

theorem declaresWrapped_sectionsBytes (ss : List Section) :
    DeclaresWrapped (sectionsBytes ss) := by
  rw [DeclaresWrapped, length_sectionsBytes, ← size_headerOf, sectionsBytes, Header.encode,
    List.append_assoc, List.append_assoc]
  exact at?_behind_magic rfl (headerOf ss).size _

/-- The pieces are written one behind the other, each by its section, after a header. -/
structure LaidOut (ss : List Section) (data : Bytes) (pieces : List Bytes) : Prop where
  written : List.Forall₂ Section.Writes ss pieces
  bytes : data = (headerOf ss).encode ++ pieces.flatten

theorem LaidOut.length_le {ss : List Section} {data : Bytes} {pieces : List Bytes}
    (h : LaidOut ss data pieces) : ∀ piece ∈ pieces, piece.length ≤ data.length := by
  intro piece hp
  have hle := (List.sublist_flatten_of_mem hp).length_le
  rw [h.bytes, List.length_append]
  omega

theorem laidOut_sectionsBytes {ss : List Section} (hs : ∀ s ∈ ss, s.Writable) :
    LaidOut ss (sectionsBytes ss) (ss.map Section.bytes) where
  written := by
    rw [List.forall₂_map_right_iff, List.forall₂_same]
    exact fun s hm => Section.parts?_append (hs s hm)
  bytes := by rw [sectionsBytes, List.flatMap_def]

/-- Encoding fails for tempos only, however long the container is. -/
theorem encode_eq_ok_iff {c : Container} {data : Bytes} :
    c.encode = .ok data ↔ c.tempos = [] ∧ data = sectionsBytes c.sections := by
  constructor
  · intro h
    have ht : c.tempos = [] := by
      by_contra hne
      rw [encode, if_neg (by rwa [List.isEmpty_iff])] at h
      cases h
    rw [encode_eq_ok ht] at h
    exact ⟨ht, (Except.ok.inj h).symm⟩
  · rintro ⟨ht, rfl⟩
    exact encode_eq_ok ht

/-- The sizes in an encoded container are those of the bytes up to a multiple of `2 ^ 32`. They are
all right if and only if the container is shorter than that. -/
theorem encode_declares_sizes (c : Container) {data : Bytes} (h : c.encode = .ok data) :
    ∃ pieces, LaidOut c.sections data pieces ∧
      (∀ part ∈ data :: pieces,
        DeclaresWrapped part ∧ (DeclaresLength part ↔ part.length < 2 ^ 32)) ∧
      ((∀ part ∈ data :: pieces, DeclaresLength part) ↔ data.length < 2 ^ 32) := by
  obtain ⟨ht, rfl⟩ := encode_eq_ok_iff.mp h
  have hlaid := laidOut_sectionsBytes (writable_of_mem_sections ht)
  have hwrap : ∀ part ∈ sectionsBytes c.sections :: c.sections.map Section.bytes,
      DeclaresWrapped part := by
    rw [List.forall_mem_cons, List.forall_mem_map]
    exact ⟨declaresWrapped_sectionsBytes _, fun s _ => s.declaresWrapped_bytes⟩
  refine ⟨_, hlaid, fun part hp => ⟨hwrap part hp, (hwrap part hp).declaresLength_iff⟩, ?_, ?_⟩
  · intro hall
    exact (hwrap _ List.mem_cons_self).declaresLength_iff.mp (hall _ List.mem_cons_self)
  · intro hl part hp
    apply (hwrap part hp).declaresLength_iff.mpr
    rcases List.mem_cons.mp hp with rfl | hp
    · exact hl
    · exact (hlaid.length_le part hp).trans_lt hl

theorem encode_declares_sizes_shuffled :
    ∃ data, (shuffled 4).encode = .ok data ∧ DeclaresLength data := by
  have he := encode_eq_ok (c := shuffled 4) rfl
  obtain ⟨pieces, -, -, hiff⟩ := encode_declares_sizes (shuffled 4) he
  have hl : (sectionsBytes (shuffled 4).sections).length < 2 ^ 32 := by
    rw [length_sectionsBytes]
    decide
  exact ⟨_, he, hiff.mpr hl _ List.mem_cons_self⟩

def padded (n : Nat) : Container where
  start := 0
  code := []
  pointers := []
  strings := List.replicate n 0

theorem length_padded (n : Nat) : (sectionsBytes (padded n).sections).length = 48 + n := by
  rw [length_sectionsBytes, totalLength_sections rfl, encodedLength]
  simp [padded]

/-- A container of `2 ^ 32` bytes is encoded without an error and says that it is empty. -/
theorem padded_declares_zero :
    ∃ data, (padded (2 ^ 32 - 48)).encode = .ok data ∧ data.length = 2 ^ 32 ∧
      Word.at? data 4 = some 0 := by
  have hlen : (sectionsBytes (padded (2 ^ 32 - 48)).sections).length = 2 ^ 32 := length_padded _
  have hsize := declaresWrapped_sectionsBytes (padded (2 ^ 32 - 48)).sections
  rw [DeclaresWrapped, hlen] at hsize
  exact ⟨_, encode_eq_ok rfl, hlen, hsize⟩

end FlowPack.Container
