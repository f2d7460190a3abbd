import FlowPack.Text.Numeral
import Mathlib.Data.Nat.Digits.Defs

namespace FlowPack.Numeral

/-- The characters are the digits of the number in the base, most significant first. Zeros may
lead. -/
def Spells (base : Nat) (upper : Bool) (cs : List Char) (n : Nat) : Prop :=
  ∃ ds : List Nat, cs = ds.map (digitChar upper) ∧ (∀ d ∈ ds, d < base) ∧
    Nat.ofDigits base ds.reverse = n

theorem spells_digits {base : Nat} (hb : 2 ≤ base) (upper : Bool) (n : Nat) :
    Spells base upper (digits base upper n) n := by
  induction n using Nat.strongRecOn with
  | ind n ih =>
    rw [digits]
    split
    · next h =>
      refine ⟨[n], rfl, ?_, Nat.ofDigits_singleton⟩
      rw [List.forall_mem_singleton]
      omega
    · next h =>
      have hn : 0 < n ∧ 0 < base := by omega
      obtain ⟨ds, hds, hlt, hvalue⟩ := ih (n / base) (Nat.div_lt_self hn.1 (by omega))
      refine ⟨ds ++ [n % base], ?_, ?_, ?_⟩
      · rw [hds, List.map_append, List.map_singleton]
      · rw [List.forall_mem_append, List.forall_mem_singleton]
        exact ⟨hlt, Nat.mod_lt n hn.2⟩
      · rw [List.reverse_append, List.reverse_singleton, List.singleton_append,
          Nat.ofDigits_cons, hvalue]
        exact Nat.mod_add_div n base

theorem Spells.zeroFill {base : Nat} {upper : Bool} {cs : List Char} {n : Nat}
    (h : Spells base upper cs n) (hb : 0 < base) (width : Nat) :
    Spells base upper (zeroFill width cs) n := by
  obtain ⟨ds, rfl, hlt, hvalue⟩ := h
  refine ⟨List.replicate (width - (ds.map (digitChar upper)).length) 0 ++ ds, ?_, ?_, ?_⟩
  · rw [Numeral.zeroFill, List.map_append, List.map_replicate]
    rfl
  · rw [List.forall_mem_append]
    refine ⟨fun d hd => ?_, hlt⟩
    rw [List.eq_of_mem_replicate hd]
    exact hb
  · rw [List.reverse_append, List.reverse_replicate, Nat.ofDigits_append_replicate_zero, hvalue]

theorem length_digits_le {base : Nat} {upper : Bool} {n w : Nat} (hb : 2 ≤ base)
    (h : n < base ^ (w + 1)) : (digits base upper n).length ≤ w + 1 := by
  induction w generalizing n with
  | zero =>
    rw [Nat.zero_add, Nat.pow_one] at h
    rw [digits, dif_pos (.inr h)]
    exact Nat.le_refl _
  | succ w ih =>
    rw [digits]
    split
    · simp
    · have := ih (n := n / base) (by rwa [Nat.div_lt_iff_lt_mul (by omega), ← Nat.pow_succ])
      simpa using this

theorem length_zeroFill {width : Nat} {cs : List Char} (h : cs.length ≤ width) :
    (zeroFill width cs).length = width := by
  rw [zeroFill, List.length_append, List.length_replicate]
  omega

end FlowPack.Numeral
