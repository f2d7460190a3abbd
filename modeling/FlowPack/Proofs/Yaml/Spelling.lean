import FlowPack.Yaml.Printer
import FlowPack.Yaml.Token.Scalar
import FlowPack.Proofs.Text.Base64
import FlowPack.Proofs.Text.Numerals
import Mathlib.Data.List.Chain

namespace FlowPack.Yaml.Printer

section Traits

variable {before : Option Char} {cs : List Char}

theorem tabs_eq_false (h : (traitsFrom before cs).tabs = false) : '\t' ∉ cs := by
  induction cs generalizing before with
  | nil => exact List.not_mem_nil
  | cons c cs ih =>
    simp only [traitsFrom, Bool.or_eq_false_iff, beq_eq_false_iff_ne] at h
    rw [List.mem_cons, not_or]
    exact ⟨h.2.symm, ih h.1⟩

theorem showable_of_mem (h : (traitsFrom before cs).unshowable = false) :
    ∀ c ∈ cs, c = '\t' ∨ isShowable c = true := by
  induction cs generalizing before with
  | nil => exact fun c hc => absurd hc List.not_mem_nil
  | cons c cs ih =>
    simp only [traitsFrom, Bool.or_eq_false_iff, Bool.and_eq_false_iff, bne_eq_false_iff_eq,
      Bool.not_eq_false'] at h
    exact List.forall_mem_cons.mpr ⟨h.2, ih h.1⟩

theorem not_isBreak_of_mem (h : (traitsFrom before cs).breaks = false) :
    ∀ c ∈ cs, isBreak c = false := by
  induction cs generalizing before with
  | nil => exact fun c hc => absurd hc List.not_mem_nil
  | cons c cs ih =>
    simp only [traitsFrom, Bool.or_eq_false_iff] at h
    exact List.forall_mem_cons.mpr ⟨h.2, ih h.1⟩

theorem isChain_spaceBeforeBreak (h : (traitsFrom before cs).spaceBeforeBreak = false) :
    (before.toList ++ cs).IsChain fun a b => a = ' ' → isBreak b = false := by
  induction cs generalizing before with
  | nil => cases before <;> simp
  | cons c cs ih =>
    simp only [traitsFrom, Bool.or_eq_false_iff, Bool.and_eq_false_iff] at h
    cases before with
    | none => exact ih h.1
    | some b =>
      refine List.isChain_cons_cons.mpr ⟨?_, ih h.1⟩
      rintro rfl
      simpa using h.2

theorem isChain_spaceAfterBreak (h : (traitsFrom before cs).spaceAfterBreak = false) :
    (before.toList ++ cs).IsChain fun a b => isBreak a = true → b ≠ ' ' := by
  induction cs generalizing before with
  | nil => cases before <;> simp
  | cons c cs ih =>
    simp only [traitsFrom, Bool.or_eq_false_iff, Bool.and_eq_false_iff] at h
    cases before with
    | none => exact ih h.1
    | some b =>
      refine List.isChain_cons_cons.mpr ⟨?_, ih h.1⟩
      intro hb
      simpa [hb] using h.2

theorem edgeSpace_eq_false (h : (traitsFrom before cs).edgeSpace = false) :
    (∀ c ∈ cs.getLast?, c ≠ ' ') ∧ (before = none → ∀ c ∈ cs.head?, c ≠ ' ') := by
  induction cs generalizing before with
  | nil => simp
  | cons c cs ih =>
    simp only [traitsFrom, Bool.or_eq_false_iff, Bool.and_eq_false_iff, beq_eq_false_iff_ne] at h
    refine ⟨?_, fun hb => ?_⟩
    · cases cs with
      | nil => simpa using h.2
      | cons d cs => simpa only [List.getLast?_cons_cons] using (ih h.1).1
    · simpa [hb] using h.2

theorem not_indicates {c : Char} {hs rest : List Char}
    (h : (traitsFrom before cs).indicators = false) (he : cs = hs ++ c :: rest) :
    indicates (before.toList ++ hs).getLast? c rest.head? = false := by
  induction cs generalizing before hs with
  | nil => simp at he
  | cons d cs ih =>
    simp only [traitsFrom, Bool.or_eq_false_iff] at h
    cases hs with
    | nil =>
      obtain ⟨rfl, rfl⟩ := List.cons.inj he
      cases before <;> simpa using h.2
    | cons e hs =>
      obtain ⟨rfl, rfl⟩ := List.cons.inj he
      have := ih h.1 rfl
      cases before <;> simpa using this

end Traits

theorem isBreak_iff {c : Char} :
    isBreak c = true ↔ c.toNat = 10 ∨ c.toNat = 13 ∨ c.toNat = 0x85 ∨ c.toNat = 0x2028 ∨
      c.toNat = 0x2029 := by
  simp [isBreak, or_assoc]

theorem isShowable_iff {c : Char} :
    isShowable c = true ↔ c.toNat = 10 ∨ (0x20 ≤ c.toNat ∧ c.toNat ≤ 0x7E) ∨
      (0xA0 ≤ c.toNat ∧ c.toNat ≤ 0xFFFD ∧ c.toNat ≠ 0xFEFF) := by
  simp [isShowable, or_assoc, and_assoc]

open Quoted (code? escape?)

theorem hexValue?_digitChar {d : Nat} (h : d < 16) :
    hexValue? (Numeral.digitChar true d) = some d := by
  revert d
  decide

theorem mapM_hexValue?_map {ds : List Nat} (h : ∀ d ∈ ds, d < 16) :
    (ds.map (Numeral.digitChar true)).mapM hexValue? = some ds := by
  induction ds with
  | nil => rfl
  | cons d ds ih =>
    rw [List.forall_mem_cons] at h
    rw [List.map_cons, List.mapM_cons, hexValue?_digitChar h.1, ih h.2]
    rfl

theorem foldl_eq_ofDigits (ds : List Nat) :
    ds.foldl (fun acc d => acc * 16 + d) 0 = Nat.ofDigits 16 ds.reverse := by
  rw [Nat.ofDigits_eq_foldr, List.foldr_reverse]
  simp only [Nat.cast_id, Nat.add_comm, Nat.mul_comm]

theorem code?_zeroFill (c : Char) (width : Nat) :
    code? (Numeral.zeroFill width (Numeral.digits 16 true c.toNat)) = some c := by
  have hspells := Numeral.spells_digits (show 2 ≤ 16 by decide) true c.toNat
  obtain ⟨ds, hds, hlt, hn⟩ := hspells.zeroFill (by decide) width
  have hc := Utf8.toNat_char_cases c
  rw [code?, hds, mapM_hexValue?_map hlt]
  simp only [foldl_eq_ofDigits, hn, Char.ofNat_toNat]
  rw [if_neg (by simp; omega)]

theorem isSome_hexValue?_of_code? {c : Char} {ds : List Char} (h : code? ds = some c) :
    ∀ x ∈ ds, (hexValue? x).isSome = true := by
  intro x hx
  unfold code? at h
  split at h
  · cases h
  · next vs hm =>
    obtain ⟨v, -, hv⟩ := exists_of_mem_mapM hm hx
    rw [hv]
    rfl

inductive Escaped (c : Char) : List Char → Prop
  | shown (hshow : isShowable c = true) (hbreak : isBreak c = false) (hquote : c ≠ '"')
    (hslash : c ≠ '\\') : Escaped c [c]
  | named {x : Char} (hx : escape? x = some (.inl c)) : Escaped c ['\\', x]
  | coded {x : Char} {ds : List Char} (hx : escape? x = some (.inr ds.length))
    (hc : code? ds = some c) : Escaped c ('\\' :: x :: ds)

theorem escaped_coded {c : Char} {x : Char} {w : Nat} (hx : escape? x = some (.inr (w + 1)))
    (hc : c.toNat < 16 ^ (w + 1)) :
    Escaped c ('\\' :: x :: Numeral.zeroFill (w + 1) (Numeral.digits 16 true c.toNat)) := by
  refine .coded ?_ (code?_zeroFill c _)
  rw [hx, Numeral.length_zeroFill (Numeral.length_digits_le (by decide) hc)]

theorem escape?_of_ite {c x y : Char} {p : Bool} {r : Option Char}
    (h : (if p = true then some y else r) = some x) (hy : p = true → escape? y = some (.inl c))
    (hr : r = some x → escape? x = some (.inl c)) : escape? x = some (.inl c) := by
  cases p with
  | true => exact Option.some.inj h ▸ hy rfl
  | false => exact hr h

theorem escaped_spec (c : Char) : Escaped c (escaped c) := by
  have hn {n : Nat} (h : (c.toNat == n) = true) : c = Char.ofNat n := by
    rw [← eq_of_beq h, Char.ofNat_toNat]
  have hc := Utf8.toNat_char_cases c
  unfold escaped
  extract_lets n name digits
  by_cases hs : (isShowable c && !isBreak c && c != '"' && c != '\\') = true
  · rw [if_pos hs]
    simp only [Bool.and_eq_true, Bool.not_eq_true', bne_iff_ne] at hs
    exact .shown hs.1.1.1 hs.1.1.2 hs.1.2 hs.2
  · rw [if_neg hs]
    cases hname : name with
    | some x =>
      apply Escaped.named
      unfold name n at hname
      repeat refine escape?_of_ite hname (fun h => by rw [hn h]; rfl) fun hname => ?_
      refine escape?_of_ite hname (fun h => ?_) fun hname => ?_
      · rcases Bool.or_eq_true .. ▸ h with h | h <;> rw [eq_of_beq h] <;> rfl
      repeat refine escape?_of_ite hname (fun h => by rw [hn h]; rfl) fun hname => ?_
      cases hname
    | none =>
      dsimp only
      split
      · exact escaped_coded rfl (by omega)
      · split
        · exact escaped_coded rfl (by omega)
        · exact escaped_coded rfl (by omega)

theorem singleFrom_cons (k : Nat) (b : Bool) (c : Char) (rest : List Char) :
    singleFrom k b (c :: rest) =
      (if b && !isBreak c then margin k else []) ++
        ((if c.toNat = 39 then [c, c] else [c]) ++ singleFrom k (isBreak c) rest) := by
  cases hb : isBreak c with
  | false => simp [singleFrom, hb]
  | true =>
    have hc : c.toNat ≠ 39 := by
      have := isBreak_iff.mp hb
      omega
    simp [singleFrom, hb, hc]

theorem blockFrom_cons (k : Nat) (b : Bool) (c : Char) (rest : List Char) :
    blockFrom k b (c :: rest) =
      (if b && !isBreak c then margin k else []) ++ ([c] ++ blockFrom k (isBreak c) rest) := by
  cases hb : isBreak c <;> simp [blockFrom, hb]

theorem literal_eq (k : Nat) (cs : List Char) :
    ∃ opening, (opening = [] ∨ opening = ['\n']) ∧
      literal k cs = ('|' :: blockMarks cs) ++ (opening ++ blockFrom k true cs) := by
  cases cs with
  | nil => exact ⟨[], .inl rfl, rfl⟩
  | cons c cs =>
    cases hb : isBreak c with
    | true => exact ⟨[], .inl rfl, by simp [literal, hb]⟩
    | false => exact ⟨['\n'], .inr rfl, by simp [literal, hb]⟩

theorem mem_blockMarks {cs : List Char} {c : Char} (h : c ∈ blockMarks cs) :
    c = '4' ∨ c = '+' ∨ c = '-' := by
  have hstep : (toString step).toList = ['4'] := by decide
  unfold blockMarks at h
  dsimp only at h
  rw [hstep, List.mem_append] at h
  rcases h with h | h
  · split at h <;> simp_all
  · split at h
    · simp_all
    · split at h <;> simp_all
    · split at h
      · simp_all
      · split at h <;> simp_all

theorem mem_base64Lines {data : Bytes} {c : Char} (h : c ∈ base64Lines data) :
    c = '\n' ∨ Base64.IsSign c := by
  unfold base64Lines at h
  dsimp only at h
  split at h
  · exact .inr (Base64.isSign_of_mem_encode data c h)
  · simp only [List.mem_flatMap, List.mem_append, List.mem_singleton] at h
    obtain ⟨i, -, h | h⟩ := h
    · exact .inr
        (Base64.isSign_of_mem_encode data c (List.mem_of_mem_drop (List.mem_of_mem_take h)))
    · exact .inl h

theorem flatMap_range_take {α : Type} (cs : List α) (k n : Nat) :
    (List.range n).flatMap (fun i => (cs.drop (k * i)).take k) = cs.take (k * n) := by
  induction n with
  | zero => simp
  | succ n ih => simp [List.range_succ, ih, Nat.mul_succ, List.take_add]

theorem filter_base64Lines (data : Bytes) :
    (base64Lines data).filter (· != '\n') = Base64.encode data := by
  have hsigns {cs : List Char} (h : ∀ c ∈ cs, c ∈ Base64.encode data) :
      cs.filter (· != '\n') = cs := by
    rw [List.filter_eq_self]
    intro c hc
    have hsign := Base64.isSign_of_mem_encode data c (h c hc)
    have : c ≠ '\n' := by
      rintro rfl
      exact absurd hsign (by decide)
    simpa using this
  unfold base64Lines
  dsimp only
  split
  · exact hsigns fun c hc => hc
  · have hline (i : Nat) : (((Base64.encode data).drop (70 * i)).take 70 ++ ['\n']).filter
        (· != '\n') = ((Base64.encode data).drop (70 * i)).take 70 := by
      rw [List.filter_append, hsigns fun c hc => List.mem_of_mem_drop (List.mem_of_mem_take hc)]
      simp
    simp only [List.filter_flatMap, hline, flatMap_range_take]
    exact List.take_of_length_le (by omega)

theorem chars?_map (cs : List Char) : chars? (cs.map .char) = some cs := by
  induction cs with
  | nil => rfl
  | cons c cs ih => rw [List.map_cons, chars?, ih]; rfl

theorem eq_map_of_chars? {t : Text} {cs : List Char} (h : chars? t = some cs) :
    t = cs.map .char := by
  induction t generalizing cs with
  | nil => cases h; rfl
  | cons g t ih =>
    cases g with
    | stray b => cases h
    | char c =>
      obtain ⟨ds, hd, rfl⟩ := Option.map_eq_some_iff.mp h
      rw [ih hd, List.map_cons]

end FlowPack.Yaml.Printer
