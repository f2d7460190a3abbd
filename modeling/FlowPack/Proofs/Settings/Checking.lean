import FlowPack.Settings.Basic
import FlowPack.Proofs.Offsets

namespace FlowPack

namespace Text

theorem stray_not_mem_of_word? {t : Text} {w : String} (h : t.word? = some w) (b : UInt8) :
    .stray b ∉ t := by
  obtain ⟨cs, hcs, -⟩ := Option.map_eq_some_iff.mp h
  intro hb
  obtain ⟨d, -, hd⟩ := exists_of_mem_mapM hcs hb
  cases hd

theorem mem_of_word? {t : Text} {w : String} (h : t.word? = some w) {c : Char}
    (hc : .char c ∈ t) : lower c ∈ w.toList := by
  obtain ⟨cs, hcs, rfl⟩ := Option.map_eq_some_iff.mp h
  obtain ⟨d, hd, he⟩ := exists_of_mem_mapM hcs hc
  rw [String.toList_ofList]
  exact Option.some.inj he ▸ hd

/-- A text without stray bytes and without dollar signs. -/
structure Simple (t : Text) : Prop where
  noStray : ∀ b, .stray b ∉ t
  noDollar : .char '$' ∉ t

theorem simple_of_word? {t : Text} {w : String} (h : t.trim.word? = some w)
    (hw : '$' ∉ w.toList) : Simple t where
  noStray b hb := stray_not_mem_of_word? h b (mem_trim hb rfl)
  noDollar hd := hw (mem_of_word? h (mem_trim hd rfl))

theorem Simple.ofBytes_bytes {t : Text} (h : Simple t) : ofBytes t.bytes = t := by
  obtain ⟨cs, rfl⟩ := exists_eq_map_char h.noStray
  exact ofBytes_bytes_map cs

end Text

open Text (Simple simple_of_word?)

theorem Journal.Level.simple {t : Text} (h : parse? t ≠ none) : Simple t := by
  unfold parse? at h
  split at h
  case h_8 => exact absurd rfl h
  all_goals
    next hw => exact simple_of_word? hw (by decide)

namespace Archive

theorem Variant.simple {t : Text} (h : parse? t ≠ none) : Simple t := by
  unfold parse? at h
  split at h
  · next w hw =>
    obtain ⟨v, hv⟩ := Option.ne_none_iff_exists'.mp h
    have hname : v.name = w := by simpa using List.find?_some hv
    refine simple_of_word? hw ?_
    rw [← hname]
    cases v <;> decide
  · exact absurd rfl h

theorem Offset.simple {t : Text} (h : parse? t ≠ none) : Simple t := by
  obtain ⟨v, hv⟩ := Option.ne_none_iff_exists'.mp h
  refine ⟨stray_not_mem_of_parse? hv, fun hd => ?_⟩
  obtain ⟨c, hc, he⟩ := exists_char_of_parse? hv hd rfl
  cases he
  exact absurd hc (by decide)

end Archive

namespace Settings

structure Valid (s : Settings) : Prop where
  version : 0 < s.version
  level : Journal.Level.parse? s.logLevel ≠ none
  tags : s.checkTags = .ok ()
  sync : s.sync = .none ∨ s.sync = .immediate
  variant : Archive.Variant.parse? s.variant ≠ none
  baseOffset : s.baseOffset = [] ∨ Archive.Offset.parse? s.baseOffset ≠ none

theorem tagFault?_eq_none_iff {taken tags : List Int} :
    tagFault? taken tags = none ↔ ∀ tag ∈ tags, (0 ≤ tag ∧ tag ≤ 255) ∧ tag ∉ taken := by
  induction tags with
  | nil => simp [tagFault?]
  | cons tag tags ih =>
    rw [tagFault?, List.forall_mem_cons, ← ih]
    by_cases hbyte : tag < 0 ∨ 255 < tag
    · rw [if_pos hbyte]
      constructor
      · intro h
        cases h
      · rintro ⟨⟨hbounds, -⟩, -⟩
        omega
    · rw [if_neg hbyte]
      have hbounds : 0 ≤ tag ∧ tag ≤ 255 := by omega
      by_cases htaken : tag ∈ taken
      · simp [htaken]
      · simp [htaken, hbounds]

theorem checkTags_eq_ok_iff {s : Settings} :
    s.checkTags = .ok () ↔ (∀ tag ∈ s.pointers ++ s.strings, 0 ≤ tag ∧ tag ≤ 255) ∧
      (∀ tag ∈ s.pointers, tag ∉ s.strings) ∧ ¬ (s.pointers = [] ∧ s.strings = []) := by
  constructor
  · intro h
    unfold checkTags at h
    split at h
    · cases h
    · next hpointers =>
      split at h
      · cases h
      · next hstrings =>
        split at h
        · cases h
        · next hne =>
          rw [tagFault?_eq_none_iff] at hpointers hstrings
          refine ⟨List.forall_mem_append.mpr ⟨?_, ?_⟩, ?_, hne⟩
          · exact fun tag htag => (hpointers tag htag).1
          · exact fun tag htag => (hstrings tag htag).1
          · exact fun tag hp hs => (hstrings tag hs).2 hp
  · rintro ⟨hbounds, hapart, hne⟩
    rw [List.forall_mem_append] at hbounds
    have hpointers : tagFault? [] s.pointers = none :=
      tagFault?_eq_none_iff.mpr fun tag htag => ⟨hbounds.1 tag htag, List.not_mem_nil⟩
    have hstrings : tagFault? s.pointers s.strings = none :=
      tagFault?_eq_none_iff.mpr fun tag htag =>
        ⟨hbounds.2 tag htag, fun hp => hapart tag hp htag⟩
    rw [checkTags, hpointers, hstrings]
    exact if_neg hne

theorem Valid.tag_bounds {s : Settings} (h : s.Valid) :
    ∀ tag ∈ s.pointers ++ s.strings, 0 ≤ tag ∧ tag ≤ 255 :=
  (checkTags_eq_ok_iff.mp h.tags).1

theorem check_eq_ok_iff {s : Settings} : s.check = .ok () ↔ s.Valid := by
  constructor
  · intro h
    unfold check at h
    split at h
    · cases h
    · next hversion =>
      split at h
      · cases h
      · next hlevel =>
        split at h
        · cases h
        · next htags =>
          split at h
          · cases h
          · next hsync =>
            split at h
            · cases h
            · next hvariant =>
              split at h
              · cases h
              · next hbase =>
                refine ⟨by omega, hlevel, htags, ?_, hvariant, ?_⟩
                · cases hs : s.sync with
                  | none => exact .inl rfl
                  | immediate => exact .inr rfl
                  | unknown code => exact absurd hs (hsync code)
                · by_cases hb : s.baseOffset = []
                  · exact .inl hb
                  · exact .inr fun hn => hbase ⟨hb, hn⟩
  · intro h
    have hbase : ¬ (s.baseOffset ≠ [] ∧ Archive.Offset.parse? s.baseOffset = none) := by
      rintro ⟨hne, hn⟩
      rcases h.baseOffset with hb | hb
      · exact hne hb
      · exact hb hn
    rw [check, if_neg (Int.not_le.mpr h.version), if_neg h.level, h.tags]
    rcases h.sync with hs | hs <;> simp only [hs, if_neg h.variant, if_neg hbase]

end Settings

end FlowPack
