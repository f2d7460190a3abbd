import FlowPack.Container.Inspection
import FlowPack.Proofs.Extents
import FlowPack.Proofs.Publishing
import FlowPack.Proofs.Reading
import FlowPack.Proofs.Recovery
import FlowPack.Report.Tables

namespace FlowPack

namespace Container

/-- The extents stand one behind the other from `here` to the end of the data, each where the data
has its name and size. -/
def Tiles (data : Bytes) : Nat → List Extent → Prop
  | here, [] => here = data.length
  | here, e :: rest =>
    e.offset.toNat = here ∧
      (Text.ofString e.name).bytes ++ Word.bytes e.size <+: data.drop here ∧
      Tiles data (here + e.size.toNat) rest

theorem tiles_of_located {data : Bytes} {ss : List Section} {es : List Extent} {here : Nat}
    (hc : Consecutive data.length here es) (hl : List.Forall₂ (Extent.Locates data) ss es) :
    Tiles data here es := by
  induction hl generalizing here with
  | nil => exact hc
  | cons h _ ih =>
    obtain ⟨rfl, hc⟩ := hc
    refine ⟨rfl, ?_, ih hc⟩
    rw [h.name, h.size]
    exact List.IsPrefix.trans h.lead <| List.take_prefix ..

theorem Section.magic_of_prefix {s t : Section} {rest : Bytes}
    (h : s.magic ++ Word.bytes s.size <+: t.bytes ++ rest) :
    s.magic = t.magic ∧ s.size = t.size := by
  obtain ⟨more, h⟩ := h
  simp only [Section.bytes, List.append_assoc] at h
  obtain ⟨hm, h⟩ := List.append_inj h (by rw [length_magic, length_magic])
  exact ⟨hm, (Word.bytes_append_inj h).1⟩

theorem magics_of_tiles {ss ts : List Section} {lead : Bytes} {offset : UInt32}
    (ht : ∀ t ∈ ts, t.Sized)
    (h : Tiles (lead ++ ts.flatMap Section.bytes) lead.length (extentsFrom offset ss)) :
    ss.map Section.magic = ts.map Section.magic := by
  induction ss generalizing ts lead offset with
  | nil =>
    cases ts with
    | nil => rfl
    | cons t ts =>
      have hlen : lead.length = (lead ++ (t :: ts).flatMap Section.bytes).length := h
      rw [List.flatMap_cons, List.length_append, List.length_append, t.length_bytes,
        ← t.length_body] at hlen
      omega
  | cons s ss ih =>
    obtain ⟨-, hhere, hrest⟩ := h
    rw [List.drop_left, s.bytes_name] at hhere
    cases ts with
    | nil =>
      have hlen := hhere.length_le
      rw [List.length_append, s.length_magic] at hlen
      simp at hlen
    | cons t ts =>
      rw [List.forall_mem_cons] at ht
      obtain ⟨hm, hsize⟩ := Section.magic_of_prefix hhere
      have hnext : lead.length + s.size.toNat = (lead ++ t.bytes).length := by
        rw [List.length_append, t.length_bytes, hsize, Section.toNat_size ht.1.short]
      rw [hnext, List.flatMap_cons, ← List.append_assoc] at hrest
      rw [List.map_cons, List.map_cons, hm, ih ht.2 hrest]

end Container

namespace Inspection

open Container

/-- The report gives the length, the sections and the digest of the data. -/
structure Describes (i : Inspection) (data : Bytes) : Prop where
  size : i.size.toNat = data.length
  sections : Tiles data 16 i.sections
  digest : i.digest = Digest.xxHash64 data

def settledReport (file : String) (c : Container) : Inspection where
  file := file
  size := c.header.size
  version := c.header.version
  start := c.start
  digest := Digest.xxHash64 (sectionsBytes c.sections)
  sections := c.layout
  pointers := c.pointerValues

section WithoutTempos

variable {c : Container} (ht : c.tempos = []) (file : String)

include ht

theorem ofContainer_eq_ok : ofContainer file c = .ok (settledReport file c) := by
  rw [ofContainer, Container.digest, encode_eq_ok ht]
  rfl

theorem describes_sectionsBytes (hl : c.encodedLength < 2 ^ 32) :
    (settledReport file c).Describes (sectionsBytes c.sections) where
  size := (arranged_encoded ht hl).size
  sections := tiles_of_located (arranged_encoded ht hl).consecutive (arranged_encoded ht hl).located
  digest := rfl

end WithoutTempos

theorem ofFile_eq_ok_iff {unpack : Unpacker} {d : Disk} {path : String} {i : Inspection} :
    ofFile unpack d path = .ok i ↔
      ∃ data c, (readInput unpack d path).2 = .ok data ∧ Container.read data = .ok c ∧
        ofContainer path c = .ok i := by
  unfold ofFile
  split
  · next h => simp [h]
  · next data h =>
    split
    · next hr => simp [h, hr]
    · next c hr =>
      split
      · next ho => simp [h, hr, ho]
      · next ho => simp [h, hr, ho]

theorem readInput_plain {d : Disk} {path : String} {data : Bytes}
    (hdata : d.content path = .ok data) (hplain : Codec.detect data = .none) :
    readInput unpackFile d path = (.none, .ok data) := by
  have ho : openInput unpackFile d path = .ok ⟨.none, ⟨data, none⟩⟩ :=
    openInput_eq_ok_iff.mpr ⟨data, hdata, by rw [hplain]; rfl⟩
  rw [readInput, ho]

/-- A report describes the container as it would be written anew, in no more bytes than the file
has. It describes the file itself if and only if the sections stand in order, each once. -/
theorem inspection_describes_rewritten {d : Disk} {path : String} {data : Bytes} {i : Inspection}
    (hdata : d.content path = .ok data) (hplain : Codec.detect data = .none)
    (hi : ofFile unpackFile d path = .ok i) :
    (∃ c out, Container.read data = .ok c ∧ c.encode = .ok out ∧ i.Describes out ∧
        out.length ≤ data.length) ∧
      (i.Describes data ↔ ∃ ss, Framed ss data ∧ InOrder ss) := by
  obtain ⟨data', c, hread, hc, ho⟩ := ofFile_eq_ok_iff.mp hi
  rw [readInput_plain hdata hplain] at hread
  obtain rfl := Except.ok.inj hread
  obtain ⟨ss, hs⟩ := framed_of_read hc
  have hy := (read_framed hs).mp hc
  obtain ⟨hw, hl, hb⟩ := framed_iff.mp hs
  have hle := encodedLength_le hy
  rw [ofContainer_eq_ok hy.tempos] at ho
  obtain rfl := Except.ok.inj ho
  have hout := describes_sectionsBytes hy.tempos path (hle.trans_lt hl)
  refine ⟨⟨c, _, hc, encode_eq_ok hy.tempos, hout, ?_⟩, ?_, ?_⟩
  · rwa [hb, length_sectionsBytes, length_sectionsBytes, totalLength_sections hy.tempos]
  · intro hd
    -- The extents are those of the three sections in order, and the file has no others.
    have htiles : Tiles ((headerOf ss).encode ++ ss.flatMap Section.bytes)
        (headerOf ss).encode.length c.layout := by
      rw [← sectionsBytes, ← hb]
      exact hd.sections
    have hm := magics_of_tiles (sized_of_totalLength hw hl) htiles
    refine ⟨ss, hs, hm.symm.trans ?_⟩
    rw [sections_eq hy.tempos]
    rfl
  · rintro ⟨ts, hts, horder⟩
    obtain rfl := hs.unique hts
    rwa [sections_eq_of_inOrder hy horder, ← hb] at hout

def shelf : Disk :=
  ⟨[(["loose"], .file (sectionsBytes disordered)),
    (["tidy"], .file (sectionsBytes settled.sections))]⟩

theorem read_disordered : Container.read (sectionsBytes disordered) = .ok settled := by
  rw [read_sectionsBytes (by simp [disordered, Section.Writable]) (by decide)]
  rfl

theorem content_loose : shelf.content "loose" = .ok (sectionsBytes disordered) := by decide

theorem content_tidy : shelf.content "tidy" = .ok (sectionsBytes settled.sections) := by decide

theorem ofFile_loose : ofFile unpackFile shelf "loose" = .ok (settledReport "loose" settled) := by
  have hread := readInput_plain content_loose (by decide)
  exact ofFile_eq_ok_iff.mpr ⟨_, settled, by rw [hread], read_disordered, ofContainer_eq_ok rfl _⟩

theorem inspection_describes_rewritten_shelf :
    (∃ i, ofFile unpackFile shelf "tidy" = .ok i ∧
        i.Describes (sectionsBytes settled.sections)) ∧
      ∃ i out, ofFile unpackFile shelf "loose" = .ok i ∧ settled.encode = .ok out ∧
        i.Describes out := by
  constructor
  · have hread := readInput_plain content_tidy (by decide)
    have hc : Container.read (sectionsBytes settled.sections) = .ok settled := by
      rw [read_encoded rfl (by decide)]
      rfl
    have hi : ofFile unpackFile shelf "tidy" = .ok (settledReport "tidy" settled) :=
      ofFile_eq_ok_iff.mpr ⟨_, settled, by rw [hread], hc, ofContainer_eq_ok rfl _⟩
    obtain ⟨-, hiff⟩ := inspection_describes_rewritten content_tidy (by decide) hi
    exact ⟨_, hi, hiff.mpr ⟨_, framed_encoded rfl (by decide), by decide⟩⟩
  · obtain ⟨⟨c, out, hc, he, hd, -⟩, -⟩ :=
      inspection_describes_rewritten content_loose (by decide) ofFile_loose
    obtain rfl := Except.ok.inj (hc.symm.trans read_disordered)
    exact ⟨_, out, ofFile_loose, he, hd⟩

/-- The file is longer than the report says, and starts with another section. -/
theorem inspection_misses_loose_sections :
    shelf.content "loose" = .ok (sectionsBytes disordered) ∧
      Codec.detect (sectionsBytes disordered) = .none ∧
      ∃ i, ofFile unpackFile shelf "loose" = .ok i ∧
        i.size.toNat ≠ (sectionsBytes disordered).length ∧
        ¬ Tiles (sectionsBytes disordered) 16 i.sections := by
  refine ⟨content_loose, by decide, _, ofFile_loose, by decide, ?_⟩
  rintro ⟨-, hname, -⟩
  exact absurd hname (by decide)

end Inspection

namespace Script

namespace PointerKind

theorem name_eq_string_iff {k : PointerKind} : k.name = "string" ↔ k = .stringRef := by
  unfold name
  split
  · next h => simp [h]
  · next h => split <;> simp [h]

theorem name_eq_pointer_iff {k : PointerKind} : k.name = "pointer" ↔ k = .streamPointer := by
  unfold name
  split
  · next h => simp [h, stringRef, streamPointer]
  · split <;> simp [*]

end PointerKind

end Script

open Script

namespace Inspection

open Container

/-- The report on a file says what the summary of its conversion says. The code of a container
starts at byte 28. -/
structure Agrees (i : Inspection) (s : Summary) (data : Bytes) : Prop where
  size : i.size = s.size
  start : i.start = s.start
  digest : i.digestText = Numeral.hexLower 16 s.digest.toNat
  sections : i.sections.map (fun e => (e.name, e.offset.toNat, e.size.toNat)) =
    [("FLOW", 16, 12 + s.flowSize),
      ("PTRO", 28 + s.flowSize, 12 + 5 * (s.stringRefs + s.streamPointers)),
      ("STRD", 40 + s.flowSize + 5 * (s.stringRefs + s.streamPointers), 8 + s.stringSize)]
  pointers : i.pointers.length = s.stringRefs + s.streamPointers
  strings : i.pointers.countP (·.kind.name = "string") = s.stringRefs
  streams : i.pointers.countP (·.kind.name = "pointer") = s.streamPointers
  value : ∀ p ∈ i.pointers, p.offset.toNat + 4 ≤ s.flowSize ∧
    Word.at? data (28 + p.offset.toNat) = some p.value

theorem at?_sectionsBytes {c : Container} (ht : c.tempos = []) {offset : UInt32}
    (h : offset.toNat + 4 ≤ c.code.length) :
    Word.at? (sectionsBytes c.sections) (28 + offset.toNat) = some (c.word offset) := by
  have hcode : ((sectionsBytes c.sections).drop 28).take c.code.length = c.code := by
    rw [sectionsBytes, sections_eq ht]
    simp [Section.bytes, Section.magic, Section.flowMagic, Section.body, Header.encode, headerOf,
      fileMagic, Word.bytes]
  rw [← Word.at?_take_drop h, hcode, Container.word]
  cases hw : Word.at? c.code offset.toNat with
  | none =>
    have := Word.at?_eq_none_iff.mp hw
    omega
  | some w => rfl

theorem layout_eq {c : Container} (ht : c.tempos = []) (hl : c.encodedLength < 2 ^ 32) :
    c.layout.map (fun e => (e.name, e.offset.toNat, e.size.toNat)) =
      [("FLOW", 16, 12 + c.code.length),
        ("PTRO", 28 + c.code.length, 12 + 5 * c.pointers.length),
        ("STRD", 40 + c.code.length + 5 * c.pointers.length, 8 + c.strings.length)] := by
  have htoNat : ∀ n ≤ c.encodedLength, (UInt32.ofNat n).toNat = n :=
    fun n hn => UInt32.toNat_ofNat_of_lt' (hn.trans_lt hl)
  have h16 : (16 : UInt32) = UInt32.ofNat 16 := rfl
  simp only [layout, sections_eq ht, extentsFrom, Section.size_eq_ofNat_length, Section.length,
    Section.name, h16, ← UInt32.ofNat_add, List.map_cons, List.map_nil]
  unfold encodedLength at htoNat
  rw [htoNat _ (by omega), htoNat _ (by omega), htoNat _ (by omega), htoNat _ (by omega),
    htoNat _ (by omega), htoNat _ (by omega)]
  simp only [List.cons.injEq, Prod.mk.injEq, true_and, and_true]
  omega

theorem agrees_packed {tags : TagSets} {l : Listing} (h : Streamed tags 0 l.items) (file : String)
    (hsize : packedLength (l.program tags) < 2 ^ 32) :
    (settledReport file (packed (l.program tags))).Agrees (packedSummary (l.program tags))
      (sectionsBytes (packed (l.program tags)).sections) := by
  have hlen := encodedLength_packed (l.program tags)
  have hkinds : ∀ q ∈ (l.program tags).pointers, q.kind = .stringRef ∨ q.kind = .streamPointer :=
    kind_of_mem_pointers
  have hstrings := List.countP_le_length (p := fun q : Pointer => q.kind = .stringRef)
    (l := (l.program tags).pointers)
  have hcount : (l.program tags).pointers.countP (·.kind = .stringRef) +
      ((l.program tags).pointers.length -
        (l.program tags).pointers.countP (·.kind = .stringRef)) =
      (l.program tags).pointers.length := by omega
  have hcode : (packed (l.program tags)).code.length = (l.program tags).flow.length :=
    length_relocateFrom _
  constructor
  · rfl
  · rfl
  · rfl
  · have hlayout := layout_eq (c := packed (l.program tags)) rfl (by rwa [hlen])
    rw [hcode] at hlayout
    rw [packedSummary, hcount]
    exact hlayout
  · simp only [settledReport, pointerValues, packedSummary, packed, List.length_map, hcount]
  · simp only [settledReport, pointerValues, packedSummary, packed, List.countP_map,
      PointerKind.name_eq_string_iff]
    rfl
  · simp only [settledReport, pointerValues, packedSummary, packed, List.countP_map,
      PointerKind.name_eq_pointer_iff, ← countP_streamPointer hkinds]
    rfl
  · intro v hv
    obtain ⟨q, hq, rfl⟩ := List.mem_map.mp hv
    have hfits := (pointer_bounds h q hq).2
    rw [Nat.zero_add] at hfits
    exact ⟨hfits, at?_sectionsBytes rfl (hcode.symm ▸ hfits)⟩

theorem detect_sectionsBytes (ss : List Section) :
    Codec.detect (sectionsBytes ss) = .none := rfl

/-- Inspecting a file right after its conversion succeeds and tells the same of it. -/
theorem inspection_agrees_with_conversion (c : Converter) (input output : String)
    (tempos : List String) (d : Disk) {s : FileSummary}
    (hs : (c.convertFile input output tempos d).result = .ok s)
    (hsize : ∀ data, (c.convertFile input output tempos d).disk.content output = .ok data →
      data.length < 2 ^ 32) :
    ∃ data i, (c.convertFile input output tempos d).disk.content output = .ok data ∧
      ofFile unpackFile (c.convertFile input output tempos d).disk output = .ok i ∧
      i.Agrees s.summary data := by
  by_cases hconv : ∃ data r, c.Converts d input data r
  · obtain ⟨source, r, h⟩ := hconv
    obtain ⟨p, hp, hc⟩ := convert_eq_ok_iff.mp h.result
    obtain rfl := convert_eq_packed hc
    obtain ⟨hpub, hsummary⟩ := Converter.convertFile_of_converts output tempos h
      (encode_eq_ok (c := packed p) rfl)
    obtain rfl := hsummary s hs
    rw [hs] at hpub
    have hcontent := hpub.of_ok.content
    have hshort := hsize _ hcontent
    have hlen : packedLength p < 2 ^ 32 := by
      rwa [length_sectionsBytes, totalLength_sections rfl, encodedLength_packed] at hshort
    have hr := h.result
    generalize c.unpack (Codec.detect source) source = unpacked at hp hr
    obtain ⟨data, fault⟩ := unpacked
    obtain rfl : fault = none := fault_of_decode hp
    obtain ⟨l, rfl, hl, -, hread⟩ :=
      exists_listing_of_convert hp hr (encode_eq_ok (c := packed p) rfl) hshort
    have hinput := readInput_plain hcontent (detect_sectionsBytes _)
    refine ⟨_, settledReport output (packed (l.program c.tags)), hcontent, ?_,
      agrees_packed hl output hlen⟩
    exact ofFile_eq_ok_iff.mpr ⟨_, _, by rw [hinput], hread, ofContainer_eq_ok rfl output⟩
  · obtain ⟨⟨e, he⟩, -⟩ := Converter.convertFile_of_not_converts output tempos hconv
    rw [he] at hs
    cases hs

theorem inspection_agrees_with_conversion_greeting :
    let c : Converter := ⟨unpackFile, .standard, true⟩
    ∃ s data i, (c.convertFile "in" "old" [] Converter.desk).result = .ok s ∧
      (c.convertFile "in" "old" [] Converter.desk).disk.content "old" = .ok data ∧
      ofFile unpackFile (c.convertFile "in" "old" [] Converter.desk).disk "old" = .ok i ∧
      i.Agrees s.summary data := by
  intro c
  have hd : (decode .standard ⟨greeting.bytes, none⟩).result = .ok (greeting.program .standard) :=
    decode_words (by decide)
  obtain ⟨r, hr, hcontainer⟩ := convert_of_relocated (p := greeting.program .standard) (by decide)
  have hconv : c.Converts Converter.desk "in" greeting.bytes r :=
    ⟨by decide, convert_eq_ok_iff.mpr ⟨_, hd, hr⟩⟩
  have he : r.container.encode =
      .ok (sectionsBytes (packed (greeting.program .standard)).sections) := by
    rw [hcontainer]
    exact encode_eq_ok rfl
  obtain ⟨hpub, -⟩ := Converter.convertFile_of_converts "old" [] hconv he
  have haccepts : Converter.desk.Accepts "old" :=
    ⟨⟨by decide, by decide⟩, by decide, by decide, by decide⟩
  have hnew : StagedFile.new "old" Converter.desk =
      .ok (⟨"old", [".old.tmp"], true, 0⟩, Converter.desk.set [".old.tmp"] (.file [])) := by
    decide
  obtain ⟨s, hs⟩ := hpub.eq_ok_iff.mpr ⟨⟨_, hnew⟩, trivial, haccepts⟩
  rw [hs] at hpub
  have hcontent := hpub.of_ok.content
  obtain ⟨data, i, hdata, hi, hagrees⟩ :=
    inspection_agrees_with_conversion c "in" "old" [] Converter.desk hs (by
      intro data hdata
      obtain rfl := Except.ok.inj (hcontent.symm.trans hdata)
      rw [length_sectionsBytes, totalLength_sections rfl, encodedLength_packed]
      decide)
  exact ⟨s, data, i, hs, hdata, hi, hagrees⟩

end Inspection

end FlowPack
