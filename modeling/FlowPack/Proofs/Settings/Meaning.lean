import FlowPack.Proofs.Decoding
import FlowPack.Proofs.Settings.Checking

namespace FlowPack.Settings

theorem toNat_tagByte {tag : Int} (h : 0 ≤ tag ∧ tag ≤ 255) :
    ((tagByte tag).toNat : Int) = tag := by
  have hlt : (tag % 256).toNat < 256 := by omega
  rw [tagByte, UInt8.toNat_ofNat_of_lt' hlt]
  omega

theorem tagByte_toNat (t : UInt8) : tagByte t.toNat = t := by
  have ht := t.toNat_lt
  have hmod : ((t.toNat : Int) % 256).toNat = t.toNat := by omega
  rw [tagByte, hmod, UInt8.ofNat_toNat]

theorem mem_map_tagByte {tags : List Int} (h : ∀ tag ∈ tags, 0 ≤ tag ∧ tag ≤ 255) (t : UInt8) :
    t ∈ tags.map tagByte ↔ (t.toNat : Int) ∈ tags := by
  rw [List.mem_map]
  constructor
  · rintro ⟨tag, htag, rfl⟩
    rwa [toNat_tagByte (h tag htag)]
  · intro ht
    exact ⟨t.toNat, ht, tagByte_toNat t⟩

section Valid

variable {s : Settings} (h : s.Valid)

include h

theorem Valid.mem_tagSets (t : UInt8) :
    (t ∈ s.tagSets.pointer ↔ (t.toNat : Int) ∈ s.pointers) ∧
      (t ∈ s.tagSets.string ↔ (t.toNat : Int) ∈ s.strings) := by
  have hbounds := List.forall_mem_append.mp h.tag_bounds
  exact ⟨mem_map_tagByte hbounds.1 t, mem_map_tagByte hbounds.2 t⟩

theorem Valid.classify (t : UInt8) :
    (s.tagSets.classify t = some .stringRef ↔ (t.toNat : Int) ∈ s.strings) ∧
      (s.tagSets.classify t = some .streamPointer ↔ (t.toNat : Int) ∈ s.pointers) ∧
      (s.tagSets.classify t = none ↔
        (t.toNat : Int) ∉ s.strings ∧ (t.toNat : Int) ∉ s.pointers) := by
  obtain ⟨-, hapart, -⟩ := checkTags_eq_ok_iff.mp h.tags
  obtain ⟨hpointer, hstring⟩ := h.mem_tagSets t
  rw [Script.TagSets.classify_eq_stringRef, Script.TagSets.classify_eq_streamPointer,
    Script.TagSets.classify_eq_none, hpointer, hstring]
  -- Strings come first, but a pointer tag is not among them.
  exact ⟨Iff.rfl, ⟨And.right, fun hp => ⟨hapart _ hp, hp⟩⟩, Iff.rfl⟩

theorem Valid.base_of_ne_nil (hb : s.baseOffset ≠ []) :
    ∃ w, Archive.Offset.parse? s.baseOffset = some w ∧ s.base = .ok w := by
  obtain ⟨w, hw⟩ := Option.ne_none_iff_exists'.mp (h.baseOffset.resolve_left hb)
  exact ⟨w, hw, by rw [base, if_neg hb, hw]⟩

theorem Valid.base_of_nil (hb : s.baseOffset = []) :
    ∃ v, Archive.Variant.parse? s.variant = some v ∧ s.base = .ok v.base := by
  obtain ⟨v, hv⟩ := Option.ne_none_iff_exists'.mp h.variant
  exact ⟨v, hv, by rw [base, if_pos hb, variantBase, hv]⟩

theorem Valid.parse?_logLevel : Journal.Level.parse? s.logLevel = some s.level := by
  obtain ⟨level, hlevel⟩ := Option.ne_none_iff_exists'.mp h.level
  rw [Settings.level, hlevel, Option.getD_some]

end Valid

/-- Tags pass when each is a byte of one list only and there is some tag. Settings that pass the
whole check give the decoder the listed tags, in whatever order and however often they are
listed, and have a base and a level, those that their texts name. -/
theorem checked_settings_mean_what_they_list (s : Settings) :
    (s.checkTags = .ok () ↔ (∀ tag ∈ s.pointers ++ s.strings, 0 ≤ tag ∧ tag ≤ 255) ∧
      (∀ tag ∈ s.pointers, tag ∉ s.strings) ∧ ¬ (s.pointers = [] ∧ s.strings = [])) ∧
    (s.check = .ok () →
      (∀ t : UInt8,
        (s.tagSets.classify t = some .stringRef ↔ (t.toNat : Int) ∈ s.strings) ∧
        (s.tagSets.classify t = some .streamPointer ↔ (t.toNat : Int) ∈ s.pointers) ∧
        (s.tagSets.classify t = none ↔
          (t.toNat : Int) ∉ s.strings ∧ (t.toNat : Int) ∉ s.pointers)) ∧
      (s.baseOffset ≠ [] →
        ∃ w, Archive.Offset.parse? s.baseOffset = some w ∧ s.base = .ok w) ∧
      (s.baseOffset = [] →
        ∃ v, Archive.Variant.parse? s.variant = some v ∧ s.base = .ok v.base) ∧
      Journal.Level.parse? s.logLevel = some s.level) := by
  refine ⟨checkTags_eq_ok_iff, fun h => ?_⟩
  have hvalid := check_eq_ok_iff.mp h
  exact ⟨hvalid.classify, hvalid.base_of_ne_nil, hvalid.base_of_nil, hvalid.parse?_logLevel⟩

def disordered : Settings where
  logLevel := []
  pointerTags := some [9, 0, 9]
  stringTags := some [255, 1, 255]
  variant := .ofString " Saltwater-EU"

theorem checked_settings_mean_what_they_list_disordered :
    disordered.check = .ok () ∧ disordered.tagSets.classify 255 = some .stringRef ∧
      disordered.tagSets.classify 9 = some .streamPointer ∧
      disordered.tagSets.classify 2 = none ∧
      disordered.base = .ok 0x060A9008 ∧ disordered.level = .info := by
  have hcheck : disordered.check = .ok () := by decide +kernel
  obtain ⟨-, hmeans⟩ := checked_settings_mean_what_they_list disordered
  obtain ⟨hclassify, -, hbase, hlevel⟩ := hmeans hcheck
  obtain ⟨v, hv, hbase⟩ := hbase rfl
  obtain rfl : .saltwaterEU = v := Option.some.inj (Eq.trans (by decide +kernel) hv)
  refine ⟨hcheck, (hclassify 255).1.mpr (by decide), (hclassify 9).2.1.mpr (by decide),
    (hclassify 2).2.2.mpr (by decide), hbase, ?_⟩
  exact Option.some.inj (hlevel.symm.trans (by decide +kernel))

end FlowPack.Settings
