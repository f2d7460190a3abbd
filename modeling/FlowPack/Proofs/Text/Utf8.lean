import FlowPack.Text
import Mathlib.Algebra.Ring.Nat
import Mathlib.Data.List.Basic

namespace FlowPack

theorem char_le_iff {a b : Char} : a ≤ b ↔ a.toNat ≤ b.toNat := Iff.rfl

theorem toUInt8_eq {b : UInt8} {n : Nat} (h : n = b.toNat) : n.toUInt8 = b := by
  rw [h]
  exact UInt8.ofNat_toNat

theorem exists_of_mem_mapM {α β : Type} {f : α → Option β} {l : List α} {r : List β} {a : α}
    (h : l.mapM f = some r) (ha : a ∈ l) : ∃ b ∈ r, f a = some b := by
  induction l generalizing r with
  | nil => cases ha
  | cons x l ih =>
    simp only [List.mapM_cons, Option.bind_eq_bind, Option.bind_eq_some_iff, Option.pure_def,
      Option.some.injEq] at h
    obtain ⟨y, hy, ys, hys, rfl⟩ := h
    rcases List.mem_cons.mp ha with rfl | ha
    · exact ⟨y, List.mem_cons_self, hy⟩
    · obtain ⟨b, hb, hf⟩ := ih hys ha
      exact ⟨b, List.mem_cons_of_mem _ hb, hf⟩

namespace Utf8

theorem toNat_toUInt8 {n : Nat} (h : n < 256) : n.toUInt8.toNat = n :=
  UInt8.toNat_ofNat_of_lt' h

theorem isTail_iff {b : UInt8} : isTail b = true ↔ 0x80 ≤ b.toNat ∧ b.toNat ≤ 0xBF := by
  simp [isTail, UInt8.le_iff_toNat_le]

theorem isTail_toUInt8 {n : Nat} : isTail (0x80 + n % 64).toUInt8 = true := by
  rw [isTail_iff, toNat_toUInt8 (by omega)]
  omega

theorem tailBits_toUInt8 {n : Nat} : tailBits (0x80 + n % 64).toUInt8 = n % 64 := by
  rw [tailBits, toNat_toUInt8 (by omega)]
  omega

theorem toNat_char_cases (c : Char) :
    c.toNat < 0xD800 ∨ (0xDFFF < c.toNat ∧ c.toNat < 0x110000) := c.valid

theorem front?_encode (c : Char) (rest : Bytes) :
    front? (encode c ++ rest) = some (c, (encode c).length) := by
  have hc := toNat_char_cases c
  unfold encode
  dsimp only
  split
  · simp [front?, toNat_toUInt8 (show c.toNat < 256 by omega), *]
  · split
    · have ha := toNat_toUInt8 (show 0xC0 + c.toNat / 64 < 256 by omega)
      have hv : (0xC0 + c.toNat / 64 - 0xC0) * 64 + c.toNat % 64 = c.toNat := by omega
      simp only [List.cons_append, List.nil_append, front?, ha, isTail_toUInt8, tailBits_toUInt8,
        hv, Char.ofNat_toNat, if_true]
      rw [if_neg (by omega), if_pos (by simp; omega)]
      rfl
    · split
      · have ha := toNat_toUInt8 (show 0xE0 + c.toNat / 4096 < 256 by omega)
        have hv : (0xE0 + c.toNat / 4096 - 0xE0) * 4096 + c.toNat / 64 % 64 * 64 + c.toNat % 64 =
            c.toNat := by omega
        simp only [List.cons_append, List.nil_append, front?, ha, isTail_toUInt8,
          tailBits_toUInt8, hv, Char.ofNat_toNat]
        rw [if_neg (by omega), if_neg (by simp; omega), if_pos (by simp; omega),
          if_pos (by simp; omega)]
        rfl
      · have ha := toNat_toUInt8 (show 0xF0 + c.toNat / 262144 < 256 by omega)
        have hv : (0xF0 + c.toNat / 262144 - 0xF0) * 262144 + c.toNat / 4096 % 64 * 4096 +
            c.toNat / 64 % 64 * 64 + c.toNat % 64 = c.toNat := by omega
        simp only [List.cons_append, List.nil_append, front?, ha, isTail_toUInt8,
          tailBits_toUInt8, hv, Char.ofNat_toNat]
        rw [if_neg (by omega), if_neg (by simp; omega), if_neg (by simp; omega),
          if_pos (by simp; omega), if_pos (by simp; omega)]
        rfl

theorem encode_ofNat {n : Nat} (h : n < 0xD800 ∨ (0xDFFF < n ∧ n < 0x110000)) :
    encode (Char.ofNat n) =
      if n < 0x80 then [n.toUInt8]
      else if n < 0x800 then [(0xC0 + n / 64).toUInt8, (0x80 + n % 64).toUInt8]
      else if n < 0x10000 then
        [(0xE0 + n / 4096).toUInt8, (0x80 + n / 64 % 64).toUInt8, (0x80 + n % 64).toUInt8]
      else
        [(0xF0 + n / 262144).toUInt8, (0x80 + n / 4096 % 64).toUInt8,
          (0x80 + n / 64 % 64).toUInt8, (0x80 + n % 64).toUInt8] := by
  rw [Char.ofNat, dif_pos h]
  rfl

section Bytes

variable {a b c d : UInt8}

theorem encode_one (h : a.toNat < 0x80) : encode (Char.ofNat a.toNat) = [a] := by
  rw [encode_ofNat (.inl (by omega)), if_pos h, toUInt8_eq (b := a) rfl]

theorem encode_two (ha : 0xC2 ≤ a.toNat) (ha' : a.toNat ≤ 0xDF) (hb : isTail b = true) :
    encode (Char.ofNat ((a.toNat - 0xC0) * 64 + tailBits b)) = [a, b] := by
  rw [isTail_iff] at hb
  unfold tailBits
  rw [encode_ofNat (.inl (by omega)), if_neg (by omega), if_pos (by omega),
    toUInt8_eq (b := a) (by omega), toUInt8_eq (b := b) (by omega)]

theorem encode_three {v : Nat}
    (hv : v = (a.toNat - 0xE0) * 4096 + tailBits b * 64 + tailBits c) (ha : 0xE0 ≤ a.toNat)
    (hb : isTail b = true) (hc : isTail c = true) (hlow : 0x800 ≤ v) (hhigh : v < 0x10000)
    (hs : ¬ (0xD800 ≤ v ∧ v ≤ 0xDFFF)) : encode (Char.ofNat v) = [a, b, c] := by
  rw [isTail_iff] at hb hc
  unfold tailBits at hv
  rw [encode_ofNat (by omega), if_neg (by omega), if_neg (by omega), if_pos (by omega),
    toUInt8_eq (b := a) (by omega), toUInt8_eq (b := b) (by omega), toUInt8_eq (b := c) (by omega)]

theorem encode_four {v : Nat} (ha : 0xF0 ≤ a.toNat)
    (hv : v = (a.toNat - 0xF0) * 262144 + tailBits b * 4096 + tailBits c * 64 + tailBits d)
    (hb : isTail b = true) (hc : isTail c = true) (hd : isTail d = true) (hlow : 0x10000 ≤ v)
    (hhigh : v ≤ 0x10FFFF) : encode (Char.ofNat v) = [a, b, c, d] := by
  rw [isTail_iff] at hb hc hd
  unfold tailBits at hv
  rw [encode_ofNat (by omega), if_neg (by omega), if_neg (by omega), if_neg (by omega),
    toUInt8_eq (b := a) (by omega), toUInt8_eq (b := b) (by omega), toUInt8_eq (b := c) (by omega),
    toUInt8_eq (b := d) (by omega)]

end Bytes

theorem encode_of_front? {data : Bytes} {x : Char} {n : Nat} (h : front? data = some (x, n)) :
    ∃ rest, data = encode x ++ rest ∧ (encode x).length = n := by
  rcases data with _ | ⟨a, rest⟩
  · cases h
  unfold front? at h
  dsimp only at h
  -- The first byte tells how many there are, so each split deals with one length.
  split at h
  · next hn =>
    obtain ⟨rfl, rfl⟩ := Prod.mk.inj (Option.some.inj h)
    exact ⟨rest, by rw [encode_one hn]; rfl, by rw [encode_one hn]; rfl⟩
  split at h
  · next hn =>
    simp only [Bool.and_eq_true, decide_eq_true_eq] at hn
    split at h
    · next b rest =>
      split at h
      · next hb =>
        obtain ⟨rfl, rfl⟩ := Prod.mk.inj (Option.some.inj h)
        rw [encode_two hn.1 hn.2 hb]
        exact ⟨rest, rfl, rfl⟩
      · cases h
    · cases h
  split at h
  · next hn =>
    simp only [Bool.and_eq_true, decide_eq_true_eq] at hn
    split at h
    · next b c rest =>
      split at h
      · next hv =>
        simp only [Bool.and_eq_true, Bool.not_eq_true', decide_eq_true_eq] at hv
        obtain ⟨rfl, rfl⟩ := Prod.mk.inj (Option.some.inj h)
        obtain ⟨⟨⟨hb, hc⟩, hlow⟩, hs⟩ := hv
        rw [encode_three rfl hn.1 hb hc hlow (by unfold tailBits; omega) (by simpa using hs)]
        exact ⟨rest, rfl, rfl⟩
      · cases h
    · cases h
  split at h
  · next hn =>
    simp only [Bool.and_eq_true, decide_eq_true_eq] at hn
    split at h
    · next b c d rest =>
      split at h
      · next hv =>
        simp only [Bool.and_eq_true, decide_eq_true_eq] at hv
        obtain ⟨rfl, rfl⟩ := Prod.mk.inj (Option.some.inj h)
        obtain ⟨⟨⟨⟨hb, hc⟩, hd⟩, hlow⟩, hhigh⟩ := hv
        rw [encode_four hn.1 rfl hb hc hd hlow hhigh]
        exact ⟨rest, rfl, rfl⟩
      · cases h
    · cases h
  · cases h

/-- A character is one byte of its own, or all of its bytes lie beyond the single ones. -/
theorem encode_cases (c : Char) :
    (c.toNat < 0x80 ∧ encode c = [c.toNat.toUInt8]) ∨
      (0x80 ≤ c.toNat ∧ ∀ b ∈ encode c, 0x80 ≤ b.toNat) := by
  have hc := toNat_char_cases c
  by_cases h : c.toNat < 0x80
  · exact .inl ⟨h, by simp only [encode, if_pos h]⟩
  · refine .inr ⟨by omega, ?_⟩
    have htail (n : Nat) : 0x80 ≤ (0x80 + n % 64).toUInt8.toNat := by
      rw [toNat_toUInt8 (by omega)]
      omega
    unfold encode
    dsimp only
    rw [if_neg h]
    split
    · simp only [List.forall_mem_cons, htail, List.not_mem_nil, false_implies, implies_true,
        and_true]
      rw [toNat_toUInt8 (by omega)]
      omega
    · split
      · simp only [List.forall_mem_cons, htail, List.not_mem_nil, false_implies, implies_true,
          and_true]
        rw [toNat_toUInt8 (by omega)]
        omega
      · simp only [List.forall_mem_cons, htail, List.not_mem_nil, false_implies, implies_true,
          and_true]
        rw [toNat_toUInt8 (by omega)]
        omega

theorem length_encode_pos (c : Char) : 0 < (encode c).length := by
  unfold encode
  dsimp only
  split
  · exact Nat.one_pos
  · split
    · exact Nat.two_pos
    · split <;> simp

end Utf8

namespace Text

theorem ofBytes_append_bytes (c : Char) (rest : Bytes) :
    ofBytes (Utf8.encode c ++ rest) = .char c :: ofBytes rest := by
  have hf := Utf8.front?_encode c rest
  have hl := Utf8.length_encode_pos c
  cases he : Utf8.encode c with
  | nil => simp [he] at hl
  | cons b tail =>
    rw [he, List.cons_append] at hf
    rw [List.cons_append, ofBytes, hf]
    simp

@[simp] theorem ofBytes_nil : ofBytes [] = [] := by rw [ofBytes]

theorem exists_eq_map_char {t : Text} (h : ∀ b, .stray b ∉ t) :
    ∃ cs : List Char, t = cs.map .char := by
  induction t with
  | nil => exact ⟨[], rfl⟩
  | cons g t ih =>
    obtain ⟨cs, rfl⟩ := ih fun b hb => h b (List.mem_cons_of_mem _ hb)
    cases g with
    | char c => exact ⟨c :: cs, rfl⟩
    | stray b => exact absurd List.mem_cons_self (h b)

theorem ofBytes_bytes_map (cs : List Char) :
    ofBytes (bytes (cs.map .char)) = cs.map .char := by
  induction cs with
  | nil => exact ofBytes_nil
  | cons c cs ih =>
    rw [List.map_cons, bytes, List.flatMap_cons, Glyph.bytes, ofBytes_append_bytes]
    exact congrArg _ ih

theorem bytes_ofBytes (data : Bytes) : (ofBytes data).bytes = data := by
  induction data using ofBytes.induct with
  | case1 => simp [bytes]
  | case2 b rest c n hf ih =>
    obtain ⟨more, hd, rfl⟩ := Utf8.encode_of_front? hf
    have hmore : rest.drop ((Utf8.encode c).length - 1) = more := by
      have hl := Utf8.length_encode_pos c
      have hdrop : (Utf8.encode c ++ more).drop (Utf8.encode c).length = more := List.drop_left
      conv_rhs => rw [← hdrop, ← hd]
      obtain ⟨k, hk⟩ := Nat.exists_eq_add_of_lt hl
      simp [hk]
    rw [hmore] at ih
    rw [ofBytes, hf]
    dsimp only
    rw [hmore, bytes, List.flatMap_cons, ← bytes, ih, hd]
    rfl
  | case3 b rest hf ih =>
    rw [ofBytes, hf]
    exact congrArg (b :: ·) ih

end Text

end FlowPack
