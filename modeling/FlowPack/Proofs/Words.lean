import FlowPack.Bytes
import Mathlib.Algebra.Ring.Nat
import Mathlib.Data.List.Basic

namespace FlowPack.Word

/-- Setting bits above all set ones adds; bits past the top are lost. -/
theorem toNat_or_shiftLeft (x y s : UInt32) (hs : s.toNat < 32) (hx : x.toNat < 2 ^ s.toNat) :
    (x ||| y <<< s).toNat = x.toNat + 2 ^ s.toNat * y.toNat % 2 ^ 32 := by
  have hm : 2 ^ s.toNat * y.toNat % 2 ^ 32 = 2 ^ s.toNat * (y.toNat % 2 ^ (32 - s.toNat)) := by
    rw [← Nat.mul_mod_mul_left, ← Nat.pow_add, Nat.add_sub_cancel' (Nat.le_of_lt hs)]
  have h := Nat.two_pow_add_eq_or_of_lt hx (y.toNat % 2 ^ (32 - s.toNat))
  rw [UInt32.toNat_or, UInt32.toNat_shiftLeft, Nat.mod_eq_of_lt hs, Nat.shiftLeft_eq,
    Nat.mul_comm y.toNat, hm, Nat.or_comm, ← h, Nat.add_comm]

theorem toNat_ofBytes (a b c d : UInt8) :
    (ofBytes a b c d).toNat =
      a.toNat + 2 ^ 8 * b.toNat + 2 ^ 16 * c.toNat + 2 ^ 24 * d.toNat := by
  have ha := a.toNat_lt
  have hb := b.toNat_lt
  have hc := c.toNat_lt
  have hd := d.toNat_lt
  have h₁ := toNat_or_shiftLeft a.toUInt32 b.toUInt32 8
  have h₂ := toNat_or_shiftLeft (a.toUInt32 ||| b.toUInt32 <<< 8) c.toUInt32 16
  have h₃ := toNat_or_shiftLeft (a.toUInt32 ||| b.toUInt32 <<< 8 ||| c.toUInt32 <<< 16)
    d.toUInt32 24
  simp only [UInt8.toNat_toUInt32, UInt32.reduceToNat] at h₁ h₂ h₃
  unfold ofBytes
  omega

theorem bytes_ofBytes (a b c d : UInt8) : bytes (ofBytes a b c d) = [a, b, c, d] := by
  have ha := a.toNat_lt
  have hb := b.toNat_lt
  have hc := c.toNat_lt
  have hd := d.toNat_lt
  have h := toNat_ofBytes a b c d
  simp only [bytes, List.cons.injEq, ← UInt8.toNat_inj, UInt32.toNat_toUInt8,
    UInt32.toNat_shiftRight, UInt32.reduceToNat, Nat.shiftRight_eq_div_pow, Nat.reduceMod]
  refine ⟨?_, ?_, ?_, ?_, trivial⟩ <;> omega

theorem ofBytes_bytes (w : UInt32) :
    ofBytes w.toUInt8 (w >>> 8).toUInt8 (w >>> 16).toUInt8 (w >>> 24).toUInt8 = w := by
  have hw := w.toNat_lt
  apply UInt32.toNat_inj.mp
  simp only [toNat_ofBytes, UInt32.toNat_toUInt8, UInt32.toNat_shiftRight, UInt32.reduceToNat,
    Nat.shiftRight_eq_div_pow, Nat.reduceMod]
  omega

@[simp] theorem take?_bytes_append (w : UInt32) (rest : Bytes) :
    take? (bytes w ++ rest) = some (w, rest) := by
  simp only [bytes, List.cons_append, List.nil_append, take?, ofBytes_bytes]

theorem take?_eq_some_iff {data rest : Bytes} {w : UInt32} :
    take? data = some (w, rest) ↔ data = bytes w ++ rest := by
  constructor
  · intro h
    unfold take? at h
    split at h
    · obtain ⟨rfl, rfl⟩ := Prod.mk.injEq .. ▸ Option.some.inj h
      rw [bytes_ofBytes]
      rfl
    · cases h
  · rintro rfl
    exact take?_bytes_append w rest

theorem take?_eq_none_iff {data : Bytes} : take? data = none ↔ data.length < 4 := by
  rcases data with _ | ⟨a, _ | ⟨b, _ | ⟨c, _ | ⟨d, rest⟩⟩⟩⟩ <;> simp [take?]

theorem bytes_injective : Function.Injective bytes := by
  intro v w h
  have hv := take?_bytes_append v []
  rw [h, take?_bytes_append] at hv
  exact (congrArg Prod.fst (Option.some.inj hv)).symm

theorem bytes_append_inj {v w : UInt32} {s t : Bytes} (h : bytes v ++ s = bytes w ++ t) :
    v = w ∧ s = t := by
  obtain ⟨hb, ht⟩ := List.append_inj h rfl
  exact ⟨bytes_injective hb, ht⟩

@[simp] theorem length_flatMap_bytes (ws : List UInt32) :
    (ws.flatMap bytes).length = 4 * ws.length := by
  induction ws with
  | nil => rfl
  | cons w ws ih =>
    rw [List.flatMap_cons, List.length_append, length_bytes, ih, List.length_cons]
    omega

theorem flatMap_bytes_append_inj {vs ws : List UInt32} {s t : Bytes}
    (hl : vs.length = ws.length) (h : vs.flatMap bytes ++ s = ws.flatMap bytes ++ t) :
    vs = ws ∧ s = t := by
  obtain ⟨hb, ht⟩ := List.append_inj h (by simp only [length_flatMap_bytes, hl])
  refine ⟨?_, ht⟩
  induction vs generalizing ws with
  | nil => exact (List.length_eq_zero_iff.mp hl.symm).symm
  | cons v vs ih =>
    cases ws with
    | nil => cases hl
    | cons w ws =>
      rw [List.flatMap_cons, List.flatMap_cons] at hb
      obtain ⟨hv, hr⟩ := List.append_inj hb rfl
      rw [bytes_injective hv, ih (Nat.succ.inj hl) (by rw [hr, ht]) hr]

theorem at?_eq_none_iff {data : Bytes} {offset : Nat} :
    at? data offset = none ↔ data.length < offset + 4 := by
  rw [at?, Option.map_eq_none_iff, take?_eq_none_iff, List.length_drop]
  omega

theorem le_length_of_at? {data : Bytes} {offset : Nat} {v : UInt32}
    (h : at? data offset = some v) : offset + 4 ≤ data.length := by
  by_contra hl
  rw [at?_eq_none_iff.mpr (by omega)] at h
  cases h

theorem at?_append_bytes_append (before after : Bytes) (w : UInt32) :
    at? (before ++ (bytes w ++ after)) before.length = some w := by
  rw [at?, List.drop_left, take?_bytes_append]
  rfl

theorem at?_flatMap_bytes (before after : Bytes) {ws : List UInt32} {m : Nat} {w : UInt32}
    (h : ws[m]? = some w) :
    at? (before ++ (ws.flatMap bytes ++ after)) (before.length + 4 * m) = some w := by
  induction ws generalizing before m with
  | nil => cases h
  | cons v ws ih =>
    rw [List.flatMap_cons, List.append_assoc]
    cases m with
    | zero =>
      obtain rfl : v = w := Option.some.inj h
      exact at?_append_bytes_append before _ v
    | succ m =>
      have hm := ih (before ++ bytes v) h
      have ho : before.length + 4 + 4 * m = before.length + 4 * (m + 1) := by omega
      rwa [List.append_assoc, List.length_append, length_bytes, ho] at hm

theorem at?_congr {data other : Bytes} {offset : Nat}
    (h : ∀ i, offset ≤ i → i < offset + 4 → data[i]? = other[i]?) :
    at? data offset = at? other offset := by
  have hfirst : ∀ d : Bytes, (take? d).map (·.1) = (take? (d.take 4)).map (·.1) := by
    intro d
    rcases d with _ | ⟨a, _ | ⟨b, _ | ⟨c, _ | ⟨d, rest⟩⟩⟩⟩ <;> rfl
  have hwin : (data.drop offset).take 4 = (other.drop offset).take 4 := by
    apply List.ext_getElem?
    intro i
    by_cases hi : i < 4
    · rw [List.getElem?_take_of_lt hi, List.getElem?_take_of_lt hi, List.getElem?_drop,
        List.getElem?_drop]
      exact h _ (by omega) (by omega)
    · rw [List.getElem?_take_eq_none (by omega), List.getElem?_take_eq_none (by omega)]
  rw [at?, at?, hfirst, hwin, ← hfirst]

theorem at?_take_drop {data : Bytes} {start size offset : Nat} (h : offset + 4 ≤ size) :
    at? ((data.drop start).take size) offset = at? data (start + offset) := by
  have hwin : at? ((data.drop start).take size) offset = at? (data.drop start) offset := by
    apply at?_congr
    intro i _ hi
    exact List.getElem?_take_of_lt (by omega)
  rw [hwin, at?, at?, List.drop_drop]

theorem getElem?_of_at? {data : Bytes} {offset : Nat} {w : UInt32} (h : at? data offset = some w)
    {i : Nat} (hi : i < 4) : data[offset + i]? = (bytes w)[i]? := by
  obtain ⟨⟨v, rest⟩, hw, rfl⟩ := Option.map_eq_some_iff.mp h
  rw [← List.getElem?_drop, take?_eq_some_iff.mp hw, List.getElem?_append_left hi]

section Put

variable {data : Bytes} {offset : Nat} (w : UInt32) (h : offset + 4 ≤ data.length)

include h

theorem length_put : (put data offset w).length = data.length := by
  simp only [put, List.length_append, List.length_take, length_bytes, List.length_drop]
  omega

theorem at?_put : at? (put data offset w) offset = some w := by
  have hl : (data.take offset).length = offset := by rw [List.length_take]; omega
  have ha := at?_append_bytes_append (data.take offset) (data.drop (offset + 4)) w
  rwa [hl, ← List.append_assoc] at ha

theorem getElem?_put_of_outside {i : Nat} (hi : i < offset ∨ offset + 4 ≤ i) :
    (put data offset w)[i]? = data[i]? := by
  have hl : (data.take offset).length = offset := by rw [List.length_take]; omega
  rw [put]
  rcases hi with hi | hi
  · rw [List.append_assoc, List.getElem?_append_left (by omega), List.getElem?_take_of_lt hi]
  · have hb : (data.take offset ++ bytes w).length = offset + 4 := by
      rw [List.length_append, hl, length_bytes]
    rw [List.getElem?_append_right (by omega), hb, List.getElem?_drop, Nat.add_sub_cancel' hi]

theorem at?_put_of_apart {other : Nat} (ho : offset + 4 ≤ other ∨ other + 4 ≤ offset) :
    at? (put data offset w) other = at? data other := by
  apply at?_congr
  intro i hi hi'
  exact getElem?_put_of_outside w h (by omega)

end Put

end FlowPack.Word
