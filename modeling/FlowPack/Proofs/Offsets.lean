import FlowPack.Command.Flag
import FlowPack.Proofs.Text.Numerals
import FlowPack.Proofs.Text.Trimming
import FlowPack.Proofs.Text.Utf8
import Mathlib.Data.List.Forall2
import Mathlib.Tactic.Ring

namespace FlowPack.Archive.Offset

def smallDigits : List Char := "0123456789abcdef".toList

def capitalDigits : List Char := "0123456789ABCDEF".toList

def Digit (base : Nat) (g : Glyph) (d : Nat) : Prop :=
  d < base ∧ ∃ c, g = .char c ∧ (smallDigits[d]? = some c ∨ capitalDigits[d]? = some c)

/-- A row of digits, at least one, and the number it denotes. Zeros may lead. -/
def Denotes (base : Nat) (t : Text) (n : Nat) : Prop :=
  ∃ ds, ds ≠ [] ∧ List.Forall₂ (Digit base) t ds ∧ Nat.ofDigits base ds.reverse = n

def marks : List (String × Nat) := [("", 10), ("0x", 16), ("0X", 16), ("0o", 8), ("0b", 2)]

/-- The text is a mark and digits of its base that denote the number. -/
def Literal (t : Text) (n : Nat) : Prop :=
  ∃ mark base digits, (mark, base) ∈ marks ∧ t = .ofString mark ++ digits ∧
    Denotes base digits n

theorem digit?_of_mem {d : Nat} {c : Char}
    (h : smallDigits[d]? = some c ∨ capitalDigits[d]? = some c) : digit? (.char c) = some d := by
  have hsmall : ∀ k < 16, smallDigits[k]?.bind (digit? ∘ .char) = some k := by decide
  have hcapital : ∀ k < 16, capitalDigits[k]?.bind (digit? ∘ .char) = some k := by decide
  rcases h with h | h
  · have hd := hsmall d (List.getElem?_eq_some_iff.mp h).1
    rwa [h] at hd
  · have hd := hcapital d (List.getElem?_eq_some_iff.mp h).1
    rwa [h] at hd

theorem toNat_lt_of_digit? {c : Char} {d : Nat} (h : digit? (.char c) = some d) :
    c.toNat < 103 := by
  have h9 : '9'.toNat = 57 := rfl
  have hf : 'f'.toNat = 102 := rfl
  have hF : 'F'.toNat = 70 := rfl
  unfold digit? at h
  simp only [Bool.and_eq_true, decide_eq_true_eq, char_le_iff] at h
  split at h
  · omega
  · split at h
    · omega
    · split at h
      · omega
      · cases h

theorem mem_of_digit? {c : Char} {d : Nat} (h : digit? (.char c) = some d) :
    smallDigits[d]? = some c ∨ capitalDigits[d]? = some c := by
  -- No digit lies past `f`, so that there are few characters to try.
  have hall : ∀ k < 103, ∀ d ∈ digit? (.char (Char.ofNat k)),
      smallDigits[d]? = some (Char.ofNat k) ∨ capitalDigits[d]? = some (Char.ofNat k) := by
    decide
  have hc := hall c.toNat (toNat_lt_of_digit? h)
  rw [Char.ofNat_toNat] at hc
  exact hc d h

theorem digit_iff {base : Nat} {g : Glyph} {d : Nat} :
    Digit base g d ↔ d < base ∧ digit? g = some d := by
  refine and_congr_right fun _ => ⟨?_, ?_⟩
  · rintro ⟨c, rfl, hc⟩
    exact digit?_of_mem hc
  · intro h
    cases g with
    | char c => exact ⟨c, rfl, mem_of_digit? h⟩
    | stray b => cases h

theorem value?_cons_eq_some_iff {base acc n : Nat} {g : Glyph} {t : Text} :
    value? base acc (g :: t) = some n ↔
      ∃ d, Digit base g d ∧ value? base (acc * base + d) t = some n := by
  rw [value?]
  cases hg : digit? g with
  | none => simp [digit_iff, hg]
  | some d =>
    by_cases hd : d < base
    · simp [digit_iff, hg, hd]
    · simp [digit_iff, hg, hd]

theorem value?_eq_some_iff {base acc n : Nat} {t : Text} :
    value? base acc t = some n ↔
      ∃ ds, List.Forall₂ (Digit base) t ds ∧
        Nat.ofDigits base ds.reverse + base ^ ds.length * acc = n := by
  induction t generalizing acc with
  | nil => simp [value?]
  | cons g t ih =>
    have hstep (d : Nat) (ds : List Nat) :
        Nat.ofDigits base ds.reverse + base ^ ds.length * (acc * base + d) =
          Nat.ofDigits base (d :: ds).reverse + base ^ (d :: ds).length * acc := by
      rw [Nat.ofDigits_reverse_cons, List.length_cons]
      ring
    simp only [value?_cons_eq_some_iff, ih, List.forall₂_cons_left_iff, hstep]
    constructor
    · rintro ⟨d, hd, ds, hds, hn⟩
      exact ⟨d :: ds, ⟨d, ds, hd, hds, rfl⟩, hn⟩
    · rintro ⟨_, ⟨d, ds, hd, hds, rfl⟩, hn⟩
      exact ⟨d, hd, ds, hds, hn⟩

theorem denotes_iff {base n : Nat} {t : Text} :
    Denotes base t n ↔ t ≠ [] ∧ value? base 0 t = some n := by
  rw [value?_eq_some_iff]
  constructor
  · rintro ⟨ds, hne, hds, hn⟩
    refine ⟨?_, ds, hds, by rw [hn, Nat.mul_zero, Nat.add_zero]⟩
    rintro rfl
    exact hne (List.forall₂_nil_left_iff.mp hds)
  · rintro ⟨hne, ds, hds, hn⟩
    refine ⟨ds, ?_, hds, by rwa [Nat.mul_zero, Nat.add_zero] at hn⟩
    rintro rfl
    exact hne (List.forall₂_nil_right_iff.mp hds)

theorem exists_digit {base : Nat} {t : Text} {ds : List Nat} {g : Glyph}
    (h : List.Forall₂ (Digit base) t ds) (hg : g ∈ t) : ∃ d, Digit base g d := by
  induction h with
  | nil => cases hg
  | cons hd _ ih =>
    rcases List.mem_cons.mp hg with rfl | hg
    · exact ⟨_, hd⟩
    · exact ih hg

theorem split_spec (t : Text) :
    ∃ mark, (mark, (split t).1) ∈ marks ∧ t = .ofString mark ++ (split t).2 := by
  unfold split
  split
  · exact ⟨"0x", by simp [marks], rfl⟩
  · exact ⟨"0X", by simp [marks], rfl⟩
  · exact ⟨"0o", by simp [marks], rfl⟩
  · exact ⟨"0b", by simp [marks], rfl⟩
  · exact ⟨"", by simp [marks], rfl⟩

theorem not_digit_of_mark {c : Char} (hc : c ∈ ['x', 'X', 'o', 'b']) (d : Nat) :
    ¬ Digit 10 (.char c) d := by
  have hall : ['x', 'X', 'o', 'b'].all fun c => (digit? (.char c)).all (10 ≤ ·) := by decide
  have hle := List.all_eq_true.mp hall c hc
  rw [digit_iff]
  rintro ⟨hlt, hd⟩
  simp only [hd, Option.all_some, decide_eq_true_eq] at hle
  omega

theorem split_of_decimal {t : Text} {ds : List Nat} (h : List.Forall₂ (Digit 10) t ds) :
    split t = (10, t) := by
  -- The second glyph is a digit, so it is not taken for the letter of a mark.
  have hsecond {g : Glyph} {c : Char} {rest : Text} (ht : t = g :: .char c :: rest) :
      c ∉ ['x', 'X', 'o', 'b'] := by
    intro hc
    have hmem : .char c ∈ t := by simp [ht]
    obtain ⟨d, hd⟩ := exists_digit h hmem
    exact not_digit_of_mark hc d hd
  unfold split
  split
  · exact absurd (by decide) (hsecond rfl)
  · exact absurd (by decide) (hsecond rfl)
  · exact absurd (by decide) (hsecond rfl)
  · exact absurd (by decide) (hsecond rfl)
  · rfl

theorem split_of_denotes {mark : String} {base n : Nat} {digits : Text}
    (hm : (mark, base) ∈ marks) (h : Denotes base digits n) :
    split (.ofString mark ++ digits) = (base, digits) := by
  simp only [marks, List.mem_cons, Prod.mk.injEq, List.not_mem_nil, or_false] at hm
  rcases hm with ⟨rfl, rfl⟩ | ⟨rfl, rfl⟩ | ⟨rfl, rfl⟩ | ⟨rfl, rfl⟩ | ⟨rfl, rfl⟩
  · obtain ⟨ds, -, hds, -⟩ := h
    exact split_of_decimal hds
  · rfl
  · rfl
  · rfl
  · rfl

theorem literal_iff {t : Text} {n : Nat} :
    Literal t n ↔ (split t).2 ≠ [] ∧ value? (split t).1 0 (split t).2 = some n := by
  constructor
  · rintro ⟨mark, base, digits, hm, rfl, h⟩
    rw [split_of_denotes hm h]
    exact denotes_iff.mp h
  · intro h
    obtain ⟨mark, hm, ht⟩ := split_spec t
    exact ⟨mark, _, _, hm, ht, denotes_iff.mpr h⟩

def alphabet : List Char := smallDigits ++ capitalDigits ++ ['x', 'X', 'o']

theorem Literal.exists_char {t : Text} {n : Nat} (h : Literal t n) {g : Glyph} (hg : g ∈ t) :
    ∃ c ∈ alphabet, g = .char c := by
  have hmarks : marks.all fun m => m.1.toList.all alphabet.contains := by decide
  obtain ⟨mark, base, digits, hm, rfl, ds, -, hds, -⟩ := h
  rcases List.mem_append.mp hg with hg | hg
  · obtain ⟨c, hc, rfl⟩ := List.mem_map.mp hg
    have hall := List.all_eq_true.mp (List.all_eq_true.mp hmarks _ hm) c hc
    exact ⟨c, List.contains_iff_mem.mp hall, rfl⟩
  · obtain ⟨d, -, c, rfl, hc⟩ := exists_digit hds hg
    refine ⟨c, List.mem_append_left _ (List.mem_append.mpr ?_), rfl⟩
    exact hc.imp List.mem_of_getElem? List.mem_of_getElem?

theorem Literal.trim_append {t before after : Text} {n : Nat} (h : Literal t n)
    (hb : before.Blank) (ha : after.Blank) : (before ++ t ++ after).trim = t := by
  have hsolid : alphabet.all fun c => !Text.isBlank c := by decide
  have hglyph : ∀ g ∈ t, Text.isBlankGlyph g = false := by
    intro g hg
    obtain ⟨c, hc, rfl⟩ := h.exists_char hg
    exact (Bool.not_eq_true' _).mp (List.all_eq_true.mp hsolid c hc)
  have htrimmed : Text.Trimmed (before ++ t ++ after) t :=
    ⟨⟨before, after, rfl, hb, ha⟩, fun g hg => hglyph g (List.mem_of_mem_head? hg),
      fun g hg => hglyph g (List.mem_of_getLast? hg)⟩
  exact htrimmed.eq_trim.symm

theorem parse?_eq_some_iff {s : Text} {v : UInt32} :
    parse? s = some v ↔ Literal s.trim v.toNat := by
  have hv := v.toNat_lt
  rw [literal_iff, parse?]
  obtain ⟨base, ds⟩ := split s.trim
  cases ds with
  | nil => simp
  | cons g ds =>
    cases hn : value? base 0 (g :: ds) with
    | none => simp [hn]
    | some n =>
      by_cases hlt : n < 0x100000000
      · have hword : UInt32.ofNat n = v ↔ n = v.toNat := by
          rw [← UInt32.toNat_inj, UInt32.toNat_ofNat_of_lt' hlt]
        simp [hn, hlt, hword]
      · have hne : n ≠ v.toNat := by omega
        simp [hn, hlt, hne]

theorem exists_char_of_parse? {s : Text} {v : UInt32} (h : parse? s = some v) {g : Glyph}
    (hg : g ∈ s) (hb : Text.isBlankGlyph g = false) : ∃ c ∈ alphabet, g = .char c :=
  (parse?_eq_some_iff.mp h).exists_char (Text.mem_trim hg hb)

theorem stray_not_mem_of_parse? {s : Text} {v : UInt32} (h : parse? s = some v) (b : UInt8) :
    .stray b ∉ s := by
  intro hb
  obtain ⟨c, -, hc⟩ := exists_char_of_parse? h hb rfl
  cases hc

/-- Reading accepts the literals between white space, with the number they denote, and nothing
else. -/
theorem parse_accepts_literals (s : Text) :
    (∀ t, s.Trimmed t ↔ t = s.trim) ∧
      (∀ v : UInt32, parse? s = some v ↔ Literal s.trim v.toNat) ∧
      (parse? s = none ↔ ∀ n < 2 ^ 32, ¬ Literal s.trim n) := by
  refine ⟨fun t => Text.trimmed_iff, fun v => parse?_eq_some_iff, ?_⟩
  constructor
  · intro h n hn hl
    rw [← UInt32.toNat_ofNat_of_lt' hn, ← parse?_eq_some_iff, h] at hl
    cases hl
  · intro h
    rw [Option.eq_none_iff_forall_ne_some]
    intro v hv
    exact h v.toNat v.toNat_lt (parse?_eq_some_iff.mp hv)

example : parse? (.ofString " 010\n") = some 10 := by decide

example : parse? (.ofString "0O17") = none := by decide

theorem digit_digitChar {base d : Nat} (hb : base ≤ 16) (h : d < base) :
    Digit base (.char (Numeral.digitChar true d)) d := by
  have hall : ∀ d < 16, capitalDigits[d]? = some (Numeral.digitChar true d) := by decide
  exact ⟨h, _, rfl, .inr (hall d (by omega))⟩

theorem denotes_of_spells {base n : Nat} {cs : List Char} (hb : base ≤ 16)
    (h : Numeral.Spells base true cs n) (hne : cs ≠ []) : Denotes base (cs.map .char) n := by
  obtain ⟨ds, rfl, hlt, hn⟩ := h
  refine ⟨ds, ?_, ?_, hn⟩
  · rintro rfl
    exact hne rfl
  · rw [List.map_map, List.forall₂_map_left_iff, List.forall₂_same]
    exact fun d hd => digit_digitChar hb (hlt d hd)

theorem length_digits (v : UInt32) :
    (Numeral.zeroFill 8 (Numeral.digits 16 true v.toNat)).length = 8 :=
  Numeral.length_zeroFill (Numeral.length_digits_le (by decide) v.toNat_lt)

theorem ofString_format (v : UInt32) : Text.ofString (format v) =
    Text.ofString "0x" ++ (Numeral.zeroFill 8 (Numeral.digits 16 true v.toNat)).map .char := by
  have hhex : (Numeral.hex 8 v.toNat).toList =
      Numeral.zeroFill 8 (Numeral.digits 16 true v.toNat) := String.toList_ofList
  rw [format, Numeral.address, Text.ofString, String.toList_append, List.map_append, hhex]
  rfl

theorem literal_format (v : UInt32) : Literal (.ofString (format v)) v.toNat := by
  have hspells := (Numeral.spells_digits (show 2 ≤ 16 by decide) true v.toNat).zeroFill
    (by decide) 8
  have hne : Numeral.zeroFill 8 (Numeral.digits 16 true v.toNat) ≠ [] := by
    rw [← List.length_pos_iff, length_digits]
    decide
  exact ⟨"0x", 16, _, by decide, ofString_format v, denotes_of_spells (by decide) hspells hne⟩

theorem parse?_blank_format {before after : Text} (hb : before.Blank) (ha : after.Blank)
    (v : UInt32) : parse? (before ++ .ofString (format v) ++ after) = some v := by
  have hliteral := literal_format v
  rw [parse?_eq_some_iff, hliteral.trim_append hb ha]
  exact hliteral

theorem parse?_format (v : UInt32) : parse? (.ofString (format v)) = some v := by
  have hnil : Text.Blank [] := by decide
  have h := parse?_blank_format hnil hnil v
  rwa [List.nil_append, List.append_nil] at h

theorem format_injective : Function.Injective format := by
  intro v w h
  have hv := parse?_format v
  rw [h, parse?_format] at hv
  exact (Option.some.inj hv).symm

theorem length_format (v : UInt32) : (format v).length = 10 := by
  have h := congrArg List.length (ofString_format v)
  rw [Text.ofString, List.length_map, String.length_toList, List.length_append, List.length_map,
    length_digits] at h
  exact h

theorem exists_string_of_parse? {t : Text} {v : UInt32} (h : parse? t = some v) :
    ∃ s, t = .ofString s := by
  obtain ⟨cs, rfl⟩ := Text.exists_eq_map_char (stray_not_mem_of_parse? h)
  exact ⟨String.ofList cs, by rw [Text.ofString, String.toList_ofList]⟩

end FlowPack.Archive.Offset

namespace FlowPack.Command

open Archive.Offset (parse? format)

theorem Options.set_base {s : String} {v : UInt32} (h : parse? (.ofString s) = some v)
    (o : Options) : o.set .base s = .ok { o with base := some v } := by
  rw [set, h]

theorem Options.set_baseText {o : Options} {v : UInt32} (h : o.base = some v) :
    o.set .base o.baseText = .ok o := by
  have hshown : parse? (.ofString o.baseText) = some v := by
    rw [baseText, h]
    exact Archive.Offset.parse?_format v
  rw [set_base hshown, ← h]

/-- An offset is read back from its literal between any white space, and every literal has ten
characters. Only strings without stray bytes are read, and a base that a string sets is kept when
it is set again from what its flag shows. -/
theorem offsets_read_back :
    (∀ (v : UInt32) (before after : Text), before.Blank → after.Blank →
      parse? (before ++ .ofString (format v) ++ after) = some v) ∧
    Function.Injective format ∧ (∀ v, (format v).length = 10) ∧
    (∀ (t : Text) (v : UInt32), parse? t = some v → ∃ s, t = .ofString s) ∧
    ∀ (s : String) (v : UInt32) (o : Options), parse? (.ofString s) = some v →
      ∃ o', o.set .base s = .ok o' ∧ o'.base = some v ∧ o'.set .base o'.baseText = .ok o' := by
  refine ⟨?_, Archive.Offset.format_injective, Archive.Offset.length_format, ?_, ?_⟩
  · intro v before after hb ha
    exact Archive.Offset.parse?_blank_format hb ha v
  · intro t v h
    exact Archive.Offset.exists_string_of_parse? h
  · intro s v o h
    exact ⟨_, Options.set_base h o, rfl, Options.set_baseText rfl⟩

theorem offsets_read_back_spaced :
    parse? (.ofString "\u3000\t" ++ .ofString (format 0xC000000) ++ .ofString "\n") =
        some 0xC000000 ∧
      ∃ o, Options.set {} .base " 0b101" = .ok o ∧ o.base = some 5 ∧
        o.set .base o.baseText = .ok o := by
  obtain ⟨hparse, -, -, -, hset⟩ := offsets_read_back
  exact ⟨hparse _ _ _ (by decide) (by decide), hset " 0b101" 5 {} (by decide)⟩

end FlowPack.Command
