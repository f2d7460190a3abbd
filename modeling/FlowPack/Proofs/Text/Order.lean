import FlowPack.Proofs.Text.Utf8

namespace FlowPack

namespace Utf8

theorem toUInt8_lt {n m : Nat} (h : n < m) (hm : m < 256) : n.toUInt8 < m.toUInt8 := by
  rw [UInt8.lt_iff_toNat_lt, toNat_toUInt8 (by omega), toNat_toUInt8 hm]
  exact h

/-- A number as a first byte, counted from `lead`, and further bytes of six bits each. -/
def spread (lead : Nat) : Nat → Nat → Bytes
  | 0, n => [(lead + n).toUInt8]
  | k + 1, n => spread lead k (n / 64) ++ [(0x80 + n % 64).toUInt8]

theorem encode_eq_spread (c : Char) :
    encode c =
      if c.toNat < 0x80 then spread 0 0 c.toNat
      else if c.toNat < 0x800 then spread 0xC0 1 c.toNat
      else if c.toNat < 0x10000 then spread 0xE0 2 c.toNat
      else spread 0xF0 3 c.toNat := by
  simp [encode, spread, Nat.div_div_eq_div_mul]

theorem spread_append_lt {lead k n m : Nat} (h : n < m) (hm : lead + m / 64 ^ k < 256)
    (x y : Bytes) : spread lead k n ++ x < spread lead k m ++ y := by
  induction k generalizing n m x y with
  | zero =>
    rw [Nat.pow_zero, Nat.div_one] at hm
    exact List.cons_lt_cons_iff.mpr (.inl (toUInt8_lt (by omega) hm))
  | succ k ih =>
    rw [spread, spread, List.append_assoc, List.append_assoc]
    by_cases hq : n / 64 < m / 64
    · apply ih hq
      rwa [Nat.div_div_eq_div_mul, ← Nat.pow_succ']
    · -- The numbers differ in their last six bits alone.
      have he : n / 64 = m / 64 := by omega
      rw [he]
      apply List.append_left_lt
      exact List.cons_lt_cons_iff.mpr (.inl (toUInt8_lt (by omega) (by omega)))

theorem exists_spread (lead k n : Nat) :
    ∃ rest, spread lead k n = (lead + n / 64 ^ k).toUInt8 :: rest := by
  induction k generalizing n with
  | zero =>
    rw [Nat.pow_zero, Nat.div_one]
    exact ⟨[], rfl⟩
  | succ k ih =>
    obtain ⟨rest, hr⟩ := ih (n / 64)
    rw [spread, hr, Nat.div_div_eq_div_mul, ← Nat.pow_succ']
    exact ⟨_, rfl⟩

theorem spread_append_lt_of_lead {a b j k n m : Nat} (h : a + n / 64 ^ j < b + m / 64 ^ k)
    (hm : b + m / 64 ^ k < 256) (x y : Bytes) : spread a j n ++ x < spread b k m ++ y := by
  obtain ⟨r, hr⟩ := exists_spread a j n
  obtain ⟨s, hs⟩ := exists_spread b k m
  rw [hr, hs]
  exact List.cons_lt_cons_iff.mpr (.inl (toUInt8_lt h hm))

/-- Characters and their bytes are ordered alike, whatever follows them. -/
theorem encode_append_lt {c d : Char} (h : c < d) (x y : Bytes) :
    encode c ++ x < encode d ++ y := by
  have hlt : c.toNat < d.toNat := h
  have hd := toNat_char_cases d
  rw [encode_eq_spread, encode_eq_spread]
  -- Characters of one width differ in some digit, those of two widths in the first byte.
  split
  · split
    · exact spread_append_lt hlt (by omega) x y
    · split
      · exact spread_append_lt_of_lead (by omega) (by omega) x y
      · split <;> exact spread_append_lt_of_lead (by omega) (by omega) x y
  rw [if_neg (show ¬ d.toNat < 0x80 by omega)]
  split
  · split
    · exact spread_append_lt hlt (by omega) x y
    · split <;> exact spread_append_lt_of_lead (by omega) (by omega) x y
  rw [if_neg (show ¬ d.toNat < 0x800 by omega)]
  split
  · split
    · exact spread_append_lt hlt (by omega) x y
    · exact spread_append_lt_of_lead (by omega) (by omega) x y
  rw [if_neg (show ¬ d.toNat < 0x10000 by omega)]
  exact spread_append_lt hlt (by omega) x y

theorem flatMap_encode_lt {cs ds : List Char} (h : cs < ds) :
    cs.flatMap encode < ds.flatMap encode := by
  induction h with
  | nil =>
    next d ds =>
    obtain ⟨b, rest, hb⟩ := List.exists_cons_of_length_pos (length_encode_pos d)
    rw [List.flatMap_cons, List.flatMap_nil, hb]
    exact List.nil_lt_cons _ _
  | rel hlt =>
    rw [List.flatMap_cons, List.flatMap_cons]
    exact encode_append_lt hlt _ _
  | cons _ ih =>
    rw [List.flatMap_cons, List.flatMap_cons]
    exact List.append_left_lt ih

theorem utf8EncodeChar_eq (c : Char) : String.utf8EncodeChar c = encode c := by
  have hc := toNat_char_cases c
  have hn : c.val.toNat = c.toNat := rfl
  unfold String.utf8EncodeChar encode
  simp only [hn, Nat.toUInt8]
  grind

end Utf8

theorem utf8_eq (s : String) : utf8 s = s.toList.flatMap Utf8.encode := by
  rw [utf8, String.toUTF8_eq_toByteArray, ← String.utf8Encode_toList, List.utf8Encode,
    List.data_toByteArray, List.flatMap_congr]
  intro c _
  exact Utf8.utf8EncodeChar_eq c

theorem utf8_lt_utf8 {s t : String} (h : s < t) : utf8 s < utf8 t := by
  rw [utf8_eq, utf8_eq]
  exact Utf8.flatMap_encode_lt (String.lt_iff.mp h)

end FlowPack
