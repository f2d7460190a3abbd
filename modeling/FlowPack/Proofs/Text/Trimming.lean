import FlowPack.Text
import Mathlib.Algebra.Ring.Nat
import Mathlib.Data.List.TakeWhile

namespace FlowPack.Text

def Blank (t : Text) : Prop := ∀ g ∈ t, isBlankGlyph g = true

instance (t : Text) : Decidable (Blank t) :=
  inferInstanceAs (Decidable (∀ g ∈ t, isBlankGlyph g = true))

/-- White space taken off both ends of `t` leaves `core`. -/
structure Trimmed (t core : Text) : Prop where
  around : ∃ before after, t = before ++ core ++ after ∧ Blank before ∧ Blank after
  first : ∀ g ∈ core.head?, isBlankGlyph g = false
  last : ∀ g ∈ core.getLast?, isBlankGlyph g = false

theorem Blank.append {t u : Text} (ht : Blank t) (hu : Blank u) : Blank (t ++ u) :=
  List.forall_mem_append.mpr ⟨ht, hu⟩

theorem Blank.reverse {t : Text} (h : Blank t) : Blank t.reverse :=
  fun g hg => h g (List.mem_reverse.mp hg)

theorem blank_takeWhile (t : Text) : Blank (t.takeWhile isBlankGlyph) :=
  fun _ hg => List.mem_takeWhile_imp hg

theorem head?_dropWhile (t : Text) :
    ∀ g ∈ (t.dropWhile isBlankGlyph).head?, isBlankGlyph g = false := by
  intro g hg
  have := List.head?_dropWhile_not isBlankGlyph t
  rw [Option.mem_def.mp hg] at this
  simpa using this

theorem dropWhile_append {before t : Text} (hb : Blank before)
    (ht : ∀ g ∈ t.head?, isBlankGlyph g = false) :
    (before ++ t).dropWhile isBlankGlyph = t := by
  rw [List.dropWhile_append_of_pos hb]
  cases t with
  | nil => rfl
  | cons g t => exact List.dropWhile_cons_of_neg (by simp [ht g rfl])

theorem Trimmed.eq_trim {t core : Text} (h : Trimmed t core) : core = t.trim := by
  obtain ⟨⟨before, after, rfl, hbefore, hafter⟩, hfirst, hlast⟩ := h
  have hlast' : ∀ g ∈ core.reverse.head?, isBlankGlyph g = false := by
    rw [List.head?_reverse]
    exact hlast
  cases core with
  | nil =>
    -- A text of white space is used up from the front.
    have hnil : (before ++ [] ++ after).dropWhile isBlankGlyph = [] := by
      rw [List.append_nil, List.dropWhile_eq_nil_iff]
      exact hbefore.append hafter
    rw [trim, hnil]
    rfl
  | cons g core =>
    have hfront : (before ++ (g :: core) ++ after).dropWhile isBlankGlyph = g :: core ++ after := by
      rw [List.append_assoc]
      exact dropWhile_append hbefore hfirst
    rw [trim, hfront, List.reverse_append, dropWhile_append hafter.reverse hlast',
      List.reverse_reverse]

theorem trimmed_trim (t : Text) : Trimmed t t.trim := by
  have hfront := List.takeWhile_append_dropWhile (p := isBlankGlyph) (l := t)
  obtain ⟨after, hafter, hsplit⟩ : ∃ after, Blank after ∧
      t.dropWhile isBlankGlyph = t.trim ++ after := by
    refine ⟨_, (blank_takeWhile (t.dropWhile isBlankGlyph).reverse).reverse, ?_⟩
    rw [trim, ← List.reverse_append, List.takeWhile_append_dropWhile, List.reverse_reverse]
  rw [hsplit, ← List.append_assoc] at hfront
  refine ⟨⟨_, after, hfront.symm, blank_takeWhile t, hafter⟩, ?_, ?_⟩
  · intro g hg
    apply head?_dropWhile t
    rw [hsplit, List.head?_append, Option.mem_def.mp hg]
    rfl
  · rw [trim, List.getLast?_reverse]
    exact head?_dropWhile _

theorem trimmed_iff {t core : Text} : Trimmed t core ↔ core = t.trim :=
  ⟨Trimmed.eq_trim, fun h => h ▸ trimmed_trim t⟩

theorem mem_trim {t : Text} {g : Glyph} (h : g ∈ t) (hg : isBlankGlyph g = false) :
    g ∈ t.trim := by
  obtain ⟨before, after, ht, hbefore, hafter⟩ := (trimmed_trim t).around
  rw [ht, List.append_assoc, List.mem_append, List.mem_append] at h
  rcases h with h | h | h
  · exact absurd (hbefore g h) (by simp [hg])
  · exact h
  · exact absurd (hafter g h) (by simp [hg])

end FlowPack.Text
