import FlowPack.Proofs.Yaml.Spelling

namespace FlowPack.Yaml.Printer

theorem isAllowed_iff {c : Char} :
    isAllowed c = true ↔ c.toNat = 9 ∨ c.toNat = 10 ∨ c.toNat = 13 ∨
      (0x20 ≤ c.toNat ∧ c.toNat ≤ 0x7E) ∨ c.toNat = 0x85 ∨ (0xA0 ≤ c.toNat ∧ c.toNat ≤ 0xFFFD) ∨
      0x10000 ≤ c.toNat := by
  simp [isAllowed, or_assoc]

theorem isAllowed_of_showable {c : Char} (h : c = '\t' ∨ isShowable c = true) :
    isAllowed c = true := by
  rcases h with rfl | h
  · decide
  · rw [isShowable_iff] at h
    rw [isAllowed_iff]
    omega

theorem isAllowed_of_escape? {x : Char} (h : Quoted.escape? x ≠ none) : isAllowed x = true := by
  unfold Quoted.escape? at h
  split at h
  · next hx =>
    rw [eq_of_beq hx]
    decide
  · split at h
    case h_21 => exact absurd rfl h
    all_goals decide

theorem isAllowed_of_hexValue? {x : Char} (h : (hexValue? x).isSome = true) :
    isAllowed x = true := by
  have hrange : 48 ≤ x.toNat ∧ x.toNat ≤ 102 := by
    have hends : '0'.toNat = 48 ∧ '9'.toNat = 57 ∧ 'a'.toNat = 97 ∧ 'f'.toNat = 102 ∧
        'A'.toNat = 65 ∧ 'F'.toNat = 70 := by decide
    simp only [hexValue?, Bool.and_eq_true, decide_eq_true_eq, char_le_iff, hends] at h
    split at h
    · omega
    · split at h
      · omega
      · split at h
        · omega
        · cases h
  rw [isAllowed_iff]
  omega

theorem Escaped.isAllowed {c : Char} {cs : List Char} (h : Escaped c cs) :
    ∀ x ∈ cs, isAllowed x = true := by
  have hslash : Yaml.isAllowed '\\' = true := by decide
  cases h with
  | shown hshow => simpa using isAllowed_of_showable (.inr hshow)
  | named hx =>
    rw [List.forall_mem_cons, List.forall_mem_singleton]
    exact ⟨hslash, isAllowed_of_escape? (by simp [hx])⟩
  | coded hx hc =>
    rw [List.forall_mem_cons, List.forall_mem_cons]
    exact ⟨hslash, isAllowed_of_escape? (by simp [hx]), fun y hy =>
      isAllowed_of_hexValue? (isSome_hexValue?_of_code? hc y hy)⟩

theorem mem_singleFrom {k : Nat} {b : Bool} {cs : List Char} {x : Char}
    (h : x ∈ singleFrom k b cs) : x = ' ' ∨ x ∈ cs := by
  induction cs generalizing b with
  | nil => cases h
  | cons c cs ih =>
    rw [singleFrom_cons, List.mem_append, List.mem_append] at h
    rcases h with h | h | h
    · split at h
      · exact .inl (List.eq_of_mem_replicate h)
      · cases h
    · refine .inr (List.mem_cons.mpr (.inl ?_))
      split at h <;> simpa using h
    · exact (ih h).imp_right (List.mem_cons_of_mem _)

theorem mem_blockFrom {k : Nat} {b : Bool} {cs : List Char} {x : Char}
    (h : x ∈ blockFrom k b cs) : x = ' ' ∨ x ∈ cs := by
  induction cs generalizing b with
  | nil => cases h
  | cons c cs ih =>
    rw [blockFrom_cons, List.mem_append, List.mem_append] at h
    rcases h with h | h | h
    · split at h
      · exact .inl (List.eq_of_mem_replicate h)
      · cases h
    · exact .inr (List.mem_cons.mpr (.inl (List.mem_singleton.mp h)))
    · exact (ih h).imp_right (List.mem_cons_of_mem _)

theorem isAllowed_of_mem_double {cs : List Char} {x : Char} (h : x ∈ double cs) :
    isAllowed x = true := by
  rw [double, List.mem_append, List.mem_cons, List.mem_singleton, List.mem_flatMap] at h
  rcases h with (rfl | ⟨c, -, hx⟩) | rfl
  · decide
  · exact (escaped_spec c).isAllowed x hx
  · decide

theorem isAllowed_of_mem_literal {k : Nat} {cs : List Char}
    (hcs : ∀ c ∈ cs, isAllowed c = true) {x : Char} (h : x ∈ literal k cs) :
    isAllowed x = true := by
  obtain ⟨opening, hopening, he⟩ := literal_eq k cs
  rw [he, List.mem_append, List.mem_append, List.mem_cons] at h
  rcases h with (rfl | h) | h | h
  · decide
  · rcases mem_blockMarks h with rfl | rfl | rfl <;> decide
  · rcases hopening with rfl | rfl
    · cases h
    · rw [List.mem_singleton.mp h]
      decide
  · rcases mem_blockFrom h with rfl | h
    · decide
    · exact hcs x h

theorem isAllowed_of_mem_single {k : Nat} {cs : List Char}
    (hcs : ∀ c ∈ cs, isAllowed c = true) {x : Char} (h : x ∈ single k cs) :
    isAllowed x = true := by
  rw [single, List.mem_append, List.mem_cons, List.mem_singleton] at h
  rcases h with (rfl | h) | rfl
  · decide
  · rcases mem_singleFrom h with rfl | h
    · decide
    · exact hcs x h
  · decide

theorem isAllowed_of_mem_string {k : Nat} {mayBePlain : Bool} {cs : List Char} {x : Char}
    (h : x ∈ string k mayBePlain cs) : isAllowed x = true := by
  have hshown (h : (traits cs).unshowable = false) : ∀ c ∈ cs, isAllowed c = true :=
    fun c hc => isAllowed_of_showable (showable_of_mem h c hc)
  have hline {out : List Char} (hout : ∀ c ∈ out, isAllowed c = true) (hx : x ∈ out ++ ['\n']) :
      isAllowed x = true := by
    rcases List.mem_append.mp hx with hx | hx
    · exact hout x hx
    · rw [List.mem_singleton.mp hx]
      decide
  have hdouble : x ∈ double cs ++ ['\n'] → isAllowed x = true :=
    hline fun c => isAllowed_of_mem_double
  unfold string at h
  dsimp only at h
  split at h
  · split at h
    · next hblock =>
      simp only [Traits.allowsBlock, Bool.not_eq_true', Bool.or_eq_false_iff] at hblock
      have hliteral : ∀ c ∈ literal k cs, isAllowed c = true := fun c =>
        isAllowed_of_mem_literal (hshown hblock.2)
      split at h
      · rw [List.append_nil] at h
        exact hliteral x h
      · exact hline hliteral h
    · exact hdouble h
  · split at h
    · split at h
      · next hplain =>
        simp only [Traits.allowsPlain, Bool.not_eq_true', Bool.or_eq_false_iff] at hplain
        exact hline (hshown hplain.1.1.1.1.1.2) h
      · split at h
        · next hsingle =>
          simp only [Traits.allowsSingle, Bool.not_eq_true', Bool.or_eq_false_iff] at hsingle
          exact hline (fun c => isAllowed_of_mem_single (hshown hsingle.2)) h
        · exact hdouble h
    · exact hdouble h

theorem isAllowed_of_mem_text {k : Nat} {t : Text} {x : Char} (h : x ∈ text k t) :
    isAllowed x = true := by
  unfold text at h
  split at h
  · exact isAllowed_of_mem_string h
  · rcases List.mem_append.mp h with h | h
    · exact List.all_eq_true.mp (by decide : "!!binary ".toList.all isAllowed = true) x h
    · exact isAllowed_of_mem_string h

end FlowPack.Yaml.Printer
