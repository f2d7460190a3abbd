import FlowPack.Yaml.Scalar
import FlowPack.Proofs.Text.Utf8
import Mathlib.Data.List.TakeWhile

namespace FlowPack.Yaml

theorem toList_toString_ofNat (n : Nat) : (toString (n : Int)).toList = Nat.toDigits 10 n := by
  change n.repr.toList = _
  rw [Nat.repr_eq_ofList_toDigits, String.toList_ofList]

theorem isDigit_iff {c : Char} : isDigit c = true ↔ 48 ≤ c.toNat ∧ c.toNat ≤ 57 := by
  simp only [isDigit, Bool.and_eq_true, decide_eq_true_eq, char_le_iff]
  rfl

theorem isDigit_of_mem_toDigits {n : Nat} {c : Char} (h : c ∈ Nat.toDigits 10 n) :
    isDigit c = true :=
  isDigit_iff.mpr (Char.isDigit_iff_toNat.mp
    (Nat.isDigit_of_mem_toDigits (by decide) (by decide) h))

theorem mem_toString {n : Int} {c : Char} (h : c ∈ (toString n).toList) :
    c = '-' ∨ isDigit c = true := by
  have hnat {k : Nat} (hc : c ∈ k.repr.toList) : isDigit c = true := by
    rw [Nat.repr_eq_ofList_toDigits, String.toList_ofList] at hc
    exact isDigit_of_mem_toDigits hc
  cases n with
  | ofNat k => exact .inr (hnat h)
  | negSucc k =>
    change c ∈ ("-" ++ (k + 1).repr).toList at h
    rw [String.toList_append, List.mem_append] at h
    exact h.imp (fun hc => by simpa using hc) hnat

theorem hexValue?_of_isDigit {c : Char} (h : isDigit c = true) :
    hexValue? c = some (c.toNat - 48) := if_pos h

theorem digitsValue?_of_isDigit {cs : List Char} (h : ∀ c ∈ cs, isDigit c = true) (acc : Nat) :
    digitsValue? 10 acc cs = some (Nat.ofDigitChars 10 cs acc) := by
  induction cs generalizing acc with
  | nil => rfl
  | cons c cs ih =>
    have hc := h c List.mem_cons_self
    have hlt := isDigit_iff.mp hc
    rw [digitsValue?, hexValue?_of_isDigit hc]
    dsimp only
    rw [if_pos (by omega), ih fun d hd => h d (List.mem_cons_of_mem _ hd), Nat.ofDigitChars_cons,
      Nat.mul_comm]
    rfl

theorem head?_toDigits {n : Nat} (h : 0 < n) : ∀ c ∈ (Nat.toDigits 10 n).head?, c ≠ '0' := by
  induction n using Nat.strongRecOn with
  | ind n ih =>
    rw [Nat.toDigits_eq_if (by decide)]
    split
    · next hn =>
      have hall : ∀ k < 10, 0 < k → Nat.digitChar k ≠ '0' := by decide
      intro c hc
      obtain rfl : Nat.digitChar n = c := by simpa using hc
      exact hall n hn h
    · next hn =>
      rw [List.head?_append_of_ne_nil _ Nat.toDigits_ne_nil]
      exact ih (n / 10) (by omega) (by omega)

theorem natural?_toDigits (n : Nat) : natural? (Nat.toDigits 10 n) = some n := by
  have hvalue : digitsValue? 10 0 (Nat.toDigits 10 n) = some n := by
    rw [digitsValue?_of_isDigit (fun _ => isDigit_of_mem_toDigits), Nat.ofDigitChars_ten_toDigits]
  rcases Nat.eq_zero_or_pos n with rfl | hn
  · rfl
  · have hhead := head?_toDigits hn
    have hne : Nat.toDigits 10 n ≠ [] := Nat.toDigits_ne_nil
    rw [natural?.eq_def]
    split
    · next he => exact absurd he hne
    · next he =>
      rw [he] at hhead
      exact absurd rfl (hhead '0' rfl)
    · next he =>
      rw [he] at hhead
      exact absurd rfl (hhead '0' rfl)
    · exact hvalue

theorem splitSign_of_isDigit {cs : List Char} (h : ∀ c ∈ cs, isDigit c = true) :
    splitSign cs = (false, cs) := by
  unfold splitSign
  split
  · next rest => exact absurd (h '-' List.mem_cons_self) (by decide)
  · next rest => exact absurd (h '+' List.mem_cons_self) (by decide)
  · rfl

theorem recognises_of_isDigit {cs : List Char} (h : ∀ c ∈ cs, isDigit c = true) :
    Timestamp.recognises cs = false := by
  have hdate : Timestamp.date? cs = none := by
    have htake : cs.takeWhile isDigit = cs := List.takeWhile_eq_self_iff.mpr h
    unfold Timestamp.date?
    dsimp only
    rw [htake]
    split
    · rfl
    · next hlen =>
      have hdrop : cs.drop 4 = [] := by
        rw [List.drop_eq_nil_iff]
        exact Nat.le_of_eq (by simpa using hlen)
      simp [hdrop, Timestamp.lit?]
  rw [Timestamp.recognises, hdate]

namespace Scalar

theorem word?_of_isDigit {c : Char} {cs : List Char} (h : isDigit c = true) :
    word? (String.ofList (c :: cs)) = none := by
  have hnot {ws : List String} (hws : ∀ w ∈ ws, w.toList.head?.any isDigit = false) :
      String.ofList (c :: cs) ∉ ws := by
    intro hm
    have hhead := hws _ hm
    rw [String.toList_ofList, List.head?_cons, Option.any_some, h] at hhead
    cases hhead
  unfold word?
  rw [if_neg (hnot (by decide)), if_neg (hnot (by decide)), if_neg (hnot (by decide)),
    if_neg (hnot (by decide)), if_neg (hnot (by decide)), if_neg (hnot (by decide))]

theorem ofPlain_toDigits {n : Nat} (h : (n : Int) ≤ maxInt) (timestamps : Bool) :
    ofPlain timestamps (Nat.toDigits 10 n) = .int n := by
  have hdigits : ∀ c ∈ Nat.toDigits 10 n, isDigit c = true := fun _ => isDigit_of_mem_toDigits
  have hinteger : integer? (Nat.toDigits 10 n) = some (n : Int) := by
    have hmin : minInt ≤ (n : Int) := by
      unfold minInt
      omega
    rw [integer?, signed?, splitSign_of_isDigit hdigits]
    simp only [natural?_toDigits, Bool.false_eq_true, if_false]
    rw [if_pos ⟨hmin, h⟩]
    rfl
  have hfilter : (Nat.toDigits 10 n).filter (· != '_') = Nat.toDigits 10 n := by
    rw [List.filter_eq_self]
    intro c hc
    have hd := hdigits c hc
    have : c ≠ '_' := by
      rintro rfl
      exact absurd hd (by decide)
    simpa using this
  have hnumber : number? (Nat.toDigits 10 n) = some (.int n) := by
    rw [number?, hfilter, hinteger]
  have htime := recognises_of_isDigit hdigits
  have hne : Nat.toDigits 10 n ≠ [] := Nat.toDigits_ne_nil
  generalize Nat.toDigits 10 n = cs at *
  cases cs with
  | nil => exact absurd rfl hne
  | cons c cs =>
    have hc := hdigits c List.mem_cons_self
    have hdot : c ≠ '.' := by
      rintro rfl
      exact absurd hc (by decide)
    unfold ofPlain
    rw [word?_of_isDigit hc]
    simp [hdot, hc, htime, hnumber]

end Scalar

end FlowPack.Yaml
