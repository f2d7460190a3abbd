import FlowPack.Conversion
import FlowPack.Proofs.Containers
import FlowPack.Proofs.Programs
import FlowPack.Proofs.Relocation

namespace FlowPack

open Script

/-- Every argument that refers to a string points past the stream. -/
def PointsPastStream (p : Program) : Prop :=
  ∀ i ∈ p.instructions, ∀ a ∈ i.args.zip i.kinds, a.2 = .string → p.flow.length ≤ a.1.toNat

instance (p : Program) : Decidable (PointsPastStream p) :=
  inferInstanceAs (Decidable (∀ i ∈ p.instructions, ∀ a ∈ i.args.zip i.kinds, _ → _))

/-- The code is the stream of the program with every string reference counted from the end of
the stream. -/
structure Rebased (p : Program) (code : Bytes) : Prop where
  length : code.length = p.flow.length
  string : ∀ q ∈ p.pointers, q.kind = .stringRef → ∃ v w,
    Word.at? p.flow q.offset.toNat = some v ∧ Word.at? code q.offset.toNat = some w ∧
      v.toNat = w.toNat + p.flow.length
  other : ∀ i, (∀ q ∈ p.pointers, q.kind = .stringRef →
    i < q.offset.toNat ∨ q.offset.toNat + 4 ≤ i) → code[i]? = p.flow[i]?
  word : ∀ i ∈ p.instructions, ∀ m w, i.words[m]? = some w →
    (∀ n, m = n + 1 → i.kinds[n]? ≠ some .string) →
      Word.at? code (i.offset.toNat + 4 * m) = some w

/-- The container of a program, however its relocation ends. -/
def packed (p : Program) : Container where
  start := p.header.start
  code := (relocate p.flow p.pointers).1
  pointers := p.pointers
  strings := p.strings

def packedLength (p : Program) : Nat :=
  48 + p.flow.length + 5 * p.pointers.length + p.strings.length

theorem encodedLength_packed (p : Program) : (packed p).encodedLength = packedLength p := by
  have hl : (packed p).code.length = p.flow.length := length_relocateFrom p.pointers
  rw [Container.encodedLength, hl]
  rfl

theorem length_sectionsBytes_packed (p : Program) :
    (Container.sectionsBytes (packed p).sections).length = packedLength p := by
  rw [Container.length_sectionsBytes, Container.totalLength_sections rfl, encodedLength_packed]

theorem ofProgram_eq (p : Program) :
    Container.ofProgram p =
      match (relocate p.flow p.pointers).2 with
      | some e => .error e
      | none => .ok (packed p) := by
  unfold Container.ofProgram packed
  split
  · next hr => rw [hr]
  · next hr => rw [hr]

def packedSummary (p : Program) : Summary where
  index := p.header.index
  start := p.header.start
  instructions := p.instructions.length
  stringRefs := p.pointers.countP (·.kind = .stringRef)
  streamPointers := p.pointers.length - p.pointers.countP (·.kind = .stringRef)
  dangling := (danglingStrings (packed p).code p.pointers p.strings.length).length
  flowSize := p.flow.length
  stringSize := p.strings.length
  size := (packed p).header.size
  digest := Digest.xxHash64 (Container.sectionsBytes (packed p).sections)

theorem convert_packed {p : Program} (h : (relocate p.flow p.pointers).2 = none) :
    Program.convert p =
      ⟨(danglingStrings (packed p).code p.pointers p.strings.length).map
        (danglingNote p.strings.length), .ok ⟨packed p, packedSummary p⟩⟩ := by
  have ho : Container.ofProgram p = .ok (packed p) := by rw [ofProgram_eq, h]
  have he := Container.encode_eq_ok (c := packed p) rfl
  simp only [Program.convert, ho, Container.digest, he, Except.map]
  rfl

theorem convert_of_relocated {p : Program} (h : (relocate p.flow p.pointers).2 = none) :
    ∃ r, (Program.convert p).result = .ok r ∧ r.container = packed p := by
  rw [convert_packed h]
  exact ⟨_, rfl, rfl⟩

theorem relocated_of_convert {p : Program} {r : Converted}
    (h : (Program.convert p).result = .ok r) : (relocate p.flow p.pointers).2 = none := by
  cases he : (relocate p.flow p.pointers).2 with
  | none => rfl
  | some e =>
    have ho : Container.ofProgram p = .error e := by rw [ofProgram_eq, he]
    simp only [Program.convert, ho] at h
    cases h

theorem convert_eq_packed {p : Program} {r : Converted} (h : (Program.convert p).result = .ok r) :
    r = ⟨packed p, packedSummary p⟩ := by
  rw [convert_packed (relocated_of_convert h)] at h
  exact (Except.ok.inj h).symm

theorem convert_eq_ok_iff {tags : TagSets} {s : Source} {r : Converted} :
    (convert tags s).result = .ok r ↔
      ∃ p, (decode tags s).result = .ok p ∧ (Program.convert p).result = .ok r := by
  dsimp only [convert]
  split
  · next e hd => simp [hd]
  · next p hd => simp [hd]

theorem packed_of_convert {tags : TagSets} {s : Source} {p : Program} {r : Converted}
    (hp : (decode tags s).result = .ok p) (hr : (convert tags s).result = .ok r) :
    (relocate p.flow p.pointers).2 = none ∧ r = ⟨packed p, packedSummary p⟩ := by
  obtain ⟨p', hp', hc⟩ := convert_eq_ok_iff.mp hr
  obtain rfl := Except.ok.inj (hp.symm.trans hp')
  exact ⟨relocated_of_convert hc, convert_eq_packed hc⟩

theorem encode_of_convert {tags : TagSets} {s : Source} {r : Converted}
    (h : (convert tags s).result = .ok r) :
    ∃ bytes, r.container.encode = .ok bytes ∧ r.summary.size = UInt32.ofNat bytes.length := by
  obtain ⟨p, -, hc⟩ := convert_eq_ok_iff.mp h
  obtain rfl := convert_eq_packed hc
  refine ⟨_, Container.encode_eq_ok rfl, ?_⟩
  rw [Container.length_sectionsBytes]
  exact Container.size_headerOf _

section Decoded

variable {tags : TagSets} {l : Listing} (h : Streamed tags 0 l.items)

include h

theorem pairwise_apart : (l.program tags).pointers.Pairwise Apart :=
  (pairwise_pointers h).imp fun hle _ _ => .inl hle

theorem at?_word {i : Instruction} (hi : i ∈ (l.program tags).instructions) {m : Nat}
    {w : UInt32} (hw : i.words[m]? = some w) :
    Word.at? (l.program tags).flow (i.offset.toNat + 4 * m) = some w :=
  at?_instruction h [] rfl i hi m w hw

theorem length_flow_lt : (l.program tags).flow.length < 2 ^ 32 := by
  have hs := h.short
  rwa [Nat.zero_add] at hs

theorem relocated_iff :
    (relocate (l.program tags).flow (l.program tags).pointers).2 = none ↔
      PointsPastStream (l.program tags) := by
  rw [relocate, relocateFrom_eq_none_iff (pairwise_apart h)]
  constructor
  · rintro hr i hi ⟨v, k⟩ ha rfl
    obtain ⟨n, hn⟩ := List.mem_iff_getElem?.mp ha
    obtain ⟨hv, hk⟩ := List.getElem?_zip_eq_some.mp hn
    obtain ⟨q, hq, hs, ho⟩ := exists_pointer h i hi n .string hk (by decide)
    obtain ⟨u, hu, hle⟩ := hr q hq (PointerKind.argKind_eq_string_iff.mp hs)
    rw [ho, at?_word h hi (m := n + 1) hv] at hu
    obtain rfl := Option.some.inj hu
    exact (ofNat_length_le_iff (length_flow_lt h)).mp hle
  · intro hp q hq hs
    obtain ⟨i, hi, n, v, hv, hk, ho⟩ := exists_argument h q hq
    rw [PointerKind.argKind_eq_string_iff.mpr hs] at hk
    have ha : (v, ArgKind.string) ∈ i.args.zip i.kinds :=
      List.mem_iff_getElem?.mpr ⟨n, List.getElem?_zip_eq_some.mpr ⟨hv, hk⟩⟩
    refine ⟨v, ?_, (ofNat_length_le_iff (length_flow_lt h)).mpr (hp i hi _ ha rfl)⟩
    rw [ho]
    exact at?_word h hi (m := n + 1) hv

theorem rebased_of_relocated
    (hr : (relocate (l.program tags).flow (l.program tags).pointers).2 = none) :
    Rebased (l.program tags) (relocate (l.program tags).flow (l.program tags).pointers).1 := by
  have hlow := lowered_of_relocate (length_flow_lt h) (pairwise_apart h) hr
  refine ⟨hlow.length, hlow.slot, hlow.other, ?_⟩
  intro i hi m w hw hno
  rw [← at?_word h hi hw]
  have hm := (List.getElem?_eq_some_iff.mp hw).1
  apply Word.at?_congr
  intro k hk hk'
  apply hlow.other
  intro q hq hs
  have := string_apart h i hi m hm hno q hq hs
  omega

theorem read_packed (hsize : packedLength (l.program tags) < 2 ^ 32) :
    Container.read (Container.sectionsBytes (packed (l.program tags)).sections) =
      .ok (packed (l.program tags)) := by
  have hfits : ∀ q ∈ (packed (l.program tags)).pointers,
      q.offset.toNat + 4 ≤ (packed (l.program tags)).code.length := by
    intro q hq
    have hq := (pointer_bounds h q hq).2
    have hl : (packed (l.program tags)).code.length = (l.program tags).flow.length :=
      length_relocateFrom _
    rwa [hl, ← Nat.zero_add (l.program tags).flow.length]
  rw [Container.read_encoded (c := packed (l.program tags)) rfl (by rwa [encodedLength_packed]),
    Container.assemble_of_fits hfits]
  rfl

end Decoded

theorem exists_listing_of_convert {tags : TagSets} {data bytes : Bytes} {p : Program}
    {r : Converted} (hp : (decode tags ⟨data, none⟩).result = .ok p)
    (hr : (convert tags ⟨data, none⟩).result = .ok r) (hb : r.container.encode = .ok bytes)
    (hl : bytes.length < 2 ^ 32) :
    ∃ l : Listing, l.program tags = p ∧ Streamed tags 0 l.items ∧
      Rebased p (packed p).code ∧ Container.read bytes = .ok (packed p) := by
  obtain ⟨hrel, rfl⟩ := packed_of_convert hp hr
  rw [Container.encode_eq_ok rfl] at hb
  obtain rfl := Except.ok.inj hb
  rw [length_sectionsBytes_packed] at hl
  obtain ⟨l, hv, -, rfl⟩ := decode_eq_ok_iff.mp hp
  have hs : Streamed tags 0 l.items := by
    apply streamed_of_valid hv
    unfold packedLength at hl
    omega
  exact ⟨l, rfl, hs, rebased_of_relocated hs hrel, read_packed hs hl⟩

/-- A script is converted if and only if it can be decoded and its string references all point
past the stream. What is read back from the bytes of the container is the program, with its
string references counted from the start of the string data. -/
theorem convert_preserves_meaning (tags : TagSets) (data : Bytes)
    (hsize : ∀ p, (decode tags ⟨data, none⟩).result = .ok p → packedLength p < 2 ^ 32) :
    ((∃ r, (convert tags ⟨data, none⟩).result = .ok r) ↔
        ∃ p, (decode tags ⟨data, none⟩).result = .ok p ∧ PointsPastStream p) ∧
      ∀ r p, (convert tags ⟨data, none⟩).result = .ok r →
        (decode tags ⟨data, none⟩).result = .ok p →
          ∃ bytes c, r.container.encode = .ok bytes ∧ bytes.length = packedLength p ∧
            Container.read bytes = .ok c ∧ c.start = p.header.start ∧
            c.pointers = p.pointers ∧ c.strings = p.strings ∧ Rebased p c.code := by
  -- The bound on the container also bounds the stream it holds.
  have hstream : ∀ l : Listing, l.Valid tags → l.bytes = data → Streamed tags 0 l.items := by
    rintro l hl rfl
    have hs := hsize _ (decode_words hl)
    unfold packedLength at hs
    exact streamed_of_valid hl (by omega)
  refine ⟨⟨?_, ?_⟩, ?_⟩
  · rintro ⟨r, hr⟩
    obtain ⟨p, hp, hc⟩ := convert_eq_ok_iff.mp hr
    obtain ⟨l, hl, hb, rfl⟩ := decode_eq_ok_iff.mp hp
    exact ⟨_, hp, (relocated_iff (hstream l hl hb)).mp (relocated_of_convert hc)⟩
  · rintro ⟨p, hp, hpast⟩
    obtain ⟨l, hl, hb, rfl⟩ := decode_eq_ok_iff.mp hp
    obtain ⟨r, hr, -⟩ := convert_of_relocated ((relocated_iff (hstream l hl hb)).mpr hpast)
    exact ⟨r, convert_eq_ok_iff.mpr ⟨_, hp, hr⟩⟩
  · intro r p hr hp
    obtain ⟨-, rfl⟩ := packed_of_convert hp hr
    have he := Container.encode_eq_ok (c := packed p) rfl
    obtain ⟨-, -, -, hb, hread⟩ := exists_listing_of_convert hp hr he (by
      rw [length_sectionsBytes_packed]
      exact hsize p hp)
    exact ⟨_, packed p, he, length_sectionsBytes_packed p, hread, rfl, rfl, rfl, hb⟩

/-- An instruction that refers to the text behind the stream and to its own start, and one whose
opcode is an end mark. -/
def greeting : Listing where
  header := ⟨1, 0, 0⟩
  items := [.marked [1, 0x100] (.pack 5 0 3) [80, 0, 7],
    .marked [] ⟨endMark⟩ (List.replicate 15 9)]
  strings := [0x68, 0, 0x69, 0, 0, 0, 0, 0]

theorem convert_preserves_meaning_greeting :
    ∃ r bytes c, (convert .standard ⟨greeting.bytes, none⟩).result = .ok r ∧
      r.container.encode = .ok bytes ∧ Container.read bytes = .ok c ∧
      c.strings = [0x68, 0, 0x69, 0, 0, 0, 0, 0] ∧
      Rebased (greeting.program .standard) c.code := by
  have hd : (decode .standard ⟨greeting.bytes, none⟩).result = .ok (greeting.program .standard) :=
    decode_words (by decide)
  obtain ⟨hiff, hread⟩ := convert_preserves_meaning .standard greeting.bytes (by
    intro p hp
    obtain rfl := Except.ok.inj (hd.symm.trans hp)
    decide)
  obtain ⟨r, hr⟩ := hiff.mpr ⟨_, hd, by decide⟩
  obtain ⟨bytes, c, he, -, hc, -, -, hs, hb⟩ := hread r _ hr hd
  exact ⟨r, bytes, c, hr, he, hc, hs, hb⟩

end FlowPack
