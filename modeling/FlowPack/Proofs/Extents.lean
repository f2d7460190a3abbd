import FlowPack.Proofs.Writing
import FlowPack.Text

namespace FlowPack.Container

namespace Extent

def cut (e : Extent) (data : Bytes) : Bytes := (data.drop e.offset.toNat).take e.size.toNat

/-- The data has, in the place of the extent, what the section writes by itself. -/
structure Locates (data : Bytes) (s : Section) (e : Extent) : Prop where
  name : (Text.ofString e.name).bytes = s.magic
  size : e.size = s.size
  output : s.Output (e.cut data)
  lead : s.magic ++ Word.bytes s.size <+: e.cut data

end Extent

/-- The extents stand one behind the other and fill the bytes between two offsets. -/
def Consecutive (stop : Nat) : Nat → List Extent → Prop
  | here, [] => here = stop
  | here, e :: rest => e.offset.toNat = here ∧ Consecutive stop (here + e.size.toNat) rest

theorem Section.bytes_name (s : Section) : (Text.ofString s.name).bytes = s.magic := by
  cases s <;> simp only [name, magic] <;> decide

theorem locates_behind {s : Section} (hs : s.Writable) {lead : Bytes} (rest : Bytes)
    (hl : lead.length + s.length < 2 ^ 32) :
    Extent.Locates (lead ++ (s.bytes ++ rest)) s ⟨s.name, UInt32.ofNat lead.length, s.size⟩ := by
  have hoffset : (UInt32.ofNat lead.length).toNat = lead.length :=
    UInt32.toNat_ofNat_of_lt' (show _ < 2 ^ 32 by omega)
  have hsize : s.size.toNat = s.bytes.length := by
    rw [s.length_bytes, Section.toNat_size (by omega)]
  have hcut : Extent.cut ⟨s.name, UInt32.ofNat lead.length, s.size⟩ (lead ++ (s.bytes ++ rest)) =
      s.bytes := by
    rw [Extent.cut, hoffset, hsize, List.drop_left, List.take_left]
  refine ⟨s.bytes_name, rfl, ?_, ?_⟩
  · rw [hcut]
    exact Section.output_bytes hs
  · rw [hcut]
    exact List.prefix_append ..

theorem extentsFrom_located {ss : List Section} (hs : ∀ s ∈ ss, s.Writable) (lead : Bytes)
    (hl : lead.length + (ss.map Section.length).sum < 2 ^ 32) :
    Consecutive (lead ++ ss.flatMap Section.bytes).length lead.length
        (extentsFrom (UInt32.ofNat lead.length) ss) ∧
      List.Forall₂ (Extent.Locates (lead ++ ss.flatMap Section.bytes)) ss
        (extentsFrom (UInt32.ofNat lead.length) ss) := by
  -- The bytes in front grow by one section at each step, the data stays the same.
  induction ss generalizing lead with
  | nil => exact ⟨by simp [extentsFrom, Consecutive], .nil⟩
  | cons s ss ih =>
    rw [List.forall_mem_cons] at hs
    rw [List.map_cons, List.sum_cons] at hl
    have hnext : (lead ++ s.bytes).length = lead.length + s.length := by
      rw [List.length_append, s.length_bytes]
    have hoffset : UInt32.ofNat lead.length + s.size = UInt32.ofNat (lead ++ s.bytes).length := by
      rw [hnext, UInt32.ofNat_add, s.size_eq_ofNat_length]
    obtain ⟨hc, hr⟩ := ih hs.2 _ (show (lead ++ s.bytes).length + _ < _ by omega)
    rw [List.append_assoc, ← List.flatMap_cons, ← hoffset] at hc hr
    rw [hnext, ← Section.toNat_size (show s.length < 2 ^ 32 by omega)] at hc
    refine ⟨⟨UInt32.toNat_ofNat_of_lt' (show _ < 2 ^ 32 by omega), hc⟩, .cons ?_ hr⟩
    exact locates_behind hs.1 _ (by omega)

structure Arranged (c : Container) (data : Bytes) : Prop where
  bytes : ∃ pieces, List.Forall₂ Section.Output c.sections pieces ∧
    data = c.header.encode ++ pieces.flatten
  size : c.header.size.toNat = data.length
  consecutive : Consecutive data.length 16 c.layout
  located : List.Forall₂ (Extent.Locates data) c.sections c.layout

theorem arranged_encoded {c : Container} (ht : c.tempos = []) (hl : c.encodedLength < 2 ^ 32) :
    c.Arranged (sectionsBytes c.sections) := by
  have hs := writable_of_mem_sections ht
  rw [← totalLength_sections ht] at hl
  obtain ⟨hc, hr⟩ := extentsFrom_located hs (headerOf c.sections).encode hl
  refine ⟨⟨c.sections.map Section.bytes, ?_, ?_⟩, ?_, hc, hr⟩
  · rw [List.forall₂_map_right_iff, List.forall₂_same]
    exact fun s hm => Section.output_bytes (hs s hm)
  · rw [sectionsBytes, List.flatMap_def]
    rfl
  · rw [length_sectionsBytes, header, size_headerOf, UInt32.toNat_ofNat_of_lt' hl]

structure Refused (c : Container) : Prop where
  encode : c.encode = .error .temposUnsupported
  check : c.check = .error .temposUnsupported
  digest : c.digest = .error .temposUnsupported
  writeTo : ∀ (σ : Type) (w : Writer σ) (s : σ),
    c.writeTo w s = (⟨0, some (.encoding .temposUnsupported)⟩, s)

theorem refused_of_tempos {c : Container} (h : c.tempos ≠ []) : c.Refused := by
  have he : c.encode = .error .temposUnsupported := by
    rw [Container.encode, if_neg (by rwa [List.isEmpty_iff])]
  refine ⟨he, ?_, ?_, fun σ w s => ?_⟩
  · rw [Container.check, he]
    rfl
  · rw [Container.digest, he]
    rfl
  · rw [Container.writeTo, he]

/-- A container without tempos that is short enough for its sizes to be words is encoded as its
header and what its sections write one by one, and its extents tell where in the bytes each of
them is. With tempos it is refused. -/
theorem encoding_follows_layout (c : Container) :
    (c.tempos = [] → c.encodedLength < 2 ^ 32 →
      ∃ data, c.encode = .ok data ∧ c.check = .ok () ∧ data.length = c.encodedLength ∧
        c.Arranged data) ∧
      (c.tempos ≠ [] → c.Refused) := by
  refine ⟨fun ht hl => ?_, refused_of_tempos⟩
  have he := encode_eq_ok ht
  refine ⟨_, he, ?_, ?_, arranged_encoded ht hl⟩
  · rw [check, he]
    rfl
  · rw [length_sectionsBytes, totalLength_sections ht]

theorem encoding_follows_layout_shuffled :
    (∃ data, (shuffled 4).encode = .ok data ∧ data.length = 73 ∧ (shuffled 4).Arranged data ∧
      (shuffled 4).layout = [⟨"FLOW", 16, 20⟩, ⟨"PTRO", 36, 27⟩, ⟨"STRD", 63, 10⟩]) ∧
      ({ shuffled 4 with tempos := [⟨1, []⟩] } : Container).Refused := by
  obtain ⟨data, he, -, hl, ha⟩ := (encoding_follows_layout (shuffled 4)).1 rfl (by decide)
  exact ⟨⟨data, he, hl, ha, by decide⟩, (encoding_follows_layout _).2 (by decide)⟩

end FlowPack.Container
