import FlowPack.Text.Base64
import FlowPack.Proofs.Text.Utf8

namespace FlowPack.Base64

theorem value?_digit {n : Nat} (h : n < 64) : value? (digit n) = some n := by
  revert n
  decide

theorem value?_equals : value? '=' = none := by decide

theorem digit_ne_equals {n : Nat} (h : n < 64) : digit n ≠ '=' := by
  intro he
  have := value?_digit h
  rw [he, value?_equals] at this
  cases this

theorem groups?_encode (data : Bytes) : groups? (encode data) = some data := by
  induction data using encode.induct with
  | case1 => rfl
  | case2 a =>
    have ha := a.toNat_lt
    simp only [encode, groups?, value?_digit (show a.toNat / 4 < 64 by omega),
      value?_digit (show a.toNat % 4 * 16 < 64 by omega)]
    rw [toUInt8_eq (b := a) (by omega)]
  | case3 a b =>
    have ha := a.toNat_lt
    have hb := b.toNat_lt
    have hne := digit_ne_equals (show b.toNat % 16 * 4 < 64 by omega)
    rw [encode, groups?]
    · simp only [value?_digit (show a.toNat / 4 < 64 by omega),
        value?_digit (show a.toNat % 4 * 16 + b.toNat / 16 < 64 by omega),
        value?_digit (show b.toNat % 16 * 4 < 64 by omega)]
      rw [toUInt8_eq (b := a) (by omega), toUInt8_eq (b := b) (by omega)]
    · exact hne
  | case4 a b c rest ih =>
    have ha := a.toNat_lt
    have hb := b.toNat_lt
    have hc := c.toNat_lt
    have hne := digit_ne_equals (show c.toNat % 64 < 64 by omega)
    rw [encode, groups?]
    · simp only [value?_digit (show a.toNat / 4 < 64 by omega),
        value?_digit (show a.toNat % 4 * 16 + b.toNat / 16 < 64 by omega),
        value?_digit (show b.toNat % 16 * 4 + c.toNat / 64 < 64 by omega),
        value?_digit (show c.toNat % 64 < 64 by omega), ih]
      rw [toUInt8_eq (b := a) (by omega), toUInt8_eq (b := b) (by omega),
        toUInt8_eq (b := c) (by omega)]
    · exact fun _ h _ => hne h
    · exact fun h _ => hne h

def IsSign (c : Char) : Prop := (value? c).isSome ∨ c = '='

instance (c : Char) : Decidable (IsSign c) := inferInstanceAs (Decidable (_ ∨ _))

theorem isSign_digit {n : Nat} (h : n < 64) : IsSign (digit n) :=
  .inl (by rw [value?_digit h]; rfl)

theorem isSign_of_mem_encode (data : Bytes) : ∀ c ∈ encode data, IsSign c := by
  have hequals : IsSign '=' := .inr rfl
  induction data using encode.induct with
  | case1 => exact fun c hc => absurd hc List.not_mem_nil
  | case2 a =>
    have ha := a.toNat_lt
    simp only [encode, List.forall_mem_cons, hequals, true_and]
    exact ⟨isSign_digit (by omega), isSign_digit (by omega), by simp⟩
  | case3 a b =>
    have ha := a.toNat_lt
    have hb := b.toNat_lt
    simp only [encode, List.forall_mem_cons, hequals, true_and]
    exact ⟨isSign_digit (by omega), isSign_digit (by omega), isSign_digit (by omega), by simp⟩
  | case4 a b c rest ih =>
    have ha := a.toNat_lt
    have hb := b.toNat_lt
    have hc := c.toNat_lt
    simp only [encode, List.forall_mem_cons]
    exact ⟨isSign_digit (by omega), isSign_digit (by omega), isSign_digit (by omega),
      isSign_digit (by omega), ih⟩

theorem encode_ne_nil {data : Bytes} (h : data ≠ []) : encode data ≠ [] := by
  cases data using encode.fun_cases <;> simp_all [encode]

theorem toNat_of_isSign {c : Char} (h : IsSign c) :
    (65 ≤ c.toNat ∧ c.toNat ≤ 90) ∨ (97 ≤ c.toNat ∧ c.toNat ≤ 122) ∨
      (48 ≤ c.toNat ∧ c.toNat ≤ 57) ∨ c = '+' ∨ c = '/' ∨ c = '=' := by
  rcases h with h | rfl
  · simp only [value?, Bool.and_eq_true, decide_eq_true_eq, beq_iff_eq, char_le_iff] at h
    have hA : 'A'.toNat = 65 := rfl
    have hZ : 'Z'.toNat = 90 := rfl
    have ha : 'a'.toNat = 97 := rfl
    have hz : 'z'.toNat = 122 := rfl
    have h0 : '0'.toNat = 48 := rfl
    have h9 : '9'.toNat = 57 := rfl
    grind
  · simp

theorem decode?_of_filter {data : Bytes} {cs : List Char}
    (h : cs.filter (· != '\n') = encode data) : decode? cs = some data := by
  have hfilter : cs.filter (fun c => c != '\n' && c != '\r') = encode data := by
    simp only [Bool.and_comm (_ != '\n')]
    rw [← List.filter_filter, h, List.filter_eq_self]
    intro c hc
    have hs := isSign_of_mem_encode data c hc
    have hne : c ≠ '\r' := by
      rintro rfl
      exact absurd hs (by decide)
    simpa using hne
  rw [decode?, hfilter, groups?_encode]

end FlowPack.Base64
