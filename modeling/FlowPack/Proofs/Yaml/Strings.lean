import FlowPack.Proofs.Yaml.Values

namespace FlowPack.Yaml

open Printer (margin traits traitsFrom)

namespace Printer

/-- The strings that no literal block can hold, but that are written as one. -/
def Lossy (cs : List Char) : Prop :=
  '\n' ∈ cs ∧ (traits cs).allowsBlock = true ∧ ∃ c ∈ cs.head?, isBreak c = true ∨ c = '\t'

instance (cs : List Char) : Decidable (Lossy cs) :=
  @instDecidableAnd _ _ inferInstance
    (@instDecidableAnd _ _ inferInstance (Option.decidableExistsMem _))

def writesPlain (mayBePlain : Bool) (cs : List Char) : Bool :=
  !cs.contains '\n' && (mayBePlain && (traits cs).allowsPlain)

theorem isChain_indicators {before : Option Char} {cs : List Char}
    (h : (traitsFrom before cs).indicators = false) :
    cs.IsChain fun a b => (a = ':' → b ≠ ' ') ∧ (a = ' ' → b ≠ '#') := by
  induction cs generalizing before with
  | nil => exact .nil
  | cons c cs ih =>
    simp only [traitsFrom, Bool.or_eq_false_iff] at h
    have htail := ih h.1
    cases cs with
    | nil => exact .singleton c
    | cons d cs =>
      refine .cons_cons ⟨?_, ?_⟩ htail
      · rintro rfl rfl
        cases before with
        | none => exact absurd h.2 (by simp [indicates, isBlank])
        | some b => exact absurd h.2 (by simp [indicates, isBlank])
      · rintro rfl rfl
        simp only [traitsFrom, Bool.or_eq_false_iff] at h
        exact absurd h.1.2 (by simp [indicates, separates, isBlank])

end Printer

theorem Plain.bare_of_allowsPlain {cs : List Char} (hne : cs ≠ [])
    (h : (traits cs).allowsPlain = true) :
    Plain.Bare cs ∧ ∀ c rest, cs = c :: rest → Printer.indicates none c rest.head? = false := by
  simp only [Printer.Traits.allowsPlain, traits, Bool.not_eq_true', Bool.or_eq_false_iff] at h
  obtain ⟨⟨⟨⟨⟨⟨⟨⟨hindicators, -⟩, hbreaks⟩, hshow⟩, htabs⟩, hedge⟩, -⟩, -⟩, -⟩ := h
  have hfirst : ∀ c rest, cs = c :: rest → Printer.indicates none c rest.head? = false :=
    fun c rest he => Printer.not_indicates hindicators (show cs = [] ++ c :: rest from he)
  have hchain := Printer.isChain_indicators hindicators
  have hlast : ∀ c ∈ cs.getLast?, c ≠ ':' := by
    rintro c hc rfl
    obtain ⟨hs, rfl⟩ := List.getLast?_eq_some_iff.mp hc
    have hends : ∀ before, Printer.indicates before ':' none = true := by
      rintro (_ | b) <;> rfl
    have hcolon : Printer.indicates hs.getLast? ':' none = false :=
      Printer.not_indicates hindicators (show hs ++ [':'] = hs ++ ':' :: [] from rfl)
    rw [hends] at hcolon
    cases hcolon
  refine ⟨⟨hne, fun c hc => ⟨Printer.not_isBreak_of_mem hbreaks c hc, ?_⟩, fun c hc => ?_,
    fun c hc => ⟨(Printer.edgeSpace_eq_false hedge).1 c hc, hlast c hc⟩, ?_, ?_⟩, hfirst⟩
  · rintro rfl
    exact Printer.tabs_eq_false htabs hc
  · refine ⟨(Printer.edgeSpace_eq_false hedge).2 rfl c hc, ?_⟩
    rintro rfl
    obtain ⟨rest, rfl⟩ := List.head?_eq_some_iff.mp hc
    exact absurd (hfirst '#' rest rfl) (by simp [Printer.indicates])
  · exact hchain.imp fun a b hab => hab.1
  · exact hchain.imp fun a b hab => hab.2

theorem Quoted.holds_of_allowsSingle {cs : List Char} (hline : '\n' ∉ cs)
    (h : (traits cs).allowsSingle = true) : Quoted.Holds cs := by
  simp only [Printer.Traits.allowsSingle, traits, Bool.not_eq_true', Bool.or_eq_false_iff] at h
  obtain ⟨⟨⟨hafter, hbefore⟩, htabs⟩, hshow⟩ := h
  refine ⟨fun c hc => (Printer.showable_of_mem hshow c hc).resolve_left ?_, hline,
    Printer.isChain_spaceBeforeBreak hbefore, Printer.isChain_spaceAfterBreak hafter⟩
  rintro rfl
  exact Printer.tabs_eq_false htabs hc

theorem Block.fits_of_allowsBlock {cs : List Char} (hne : cs ≠ [])
    (h : (traits cs).allowsBlock = true)
    (hfirst : ∀ c ∈ cs.head?, isBreak c = false ∧ c ≠ '\t') : Block.Fits cs := by
  simp only [Printer.Traits.allowsBlock, traits, Bool.not_eq_true', Bool.or_eq_false_iff] at h
  refine ⟨hne, hfirst, fun c hc hb => ?_⟩
  rcases Printer.showable_of_mem h.2 c hc with rfl | hshow
  · exact absurd hb (by decide)
  · rw [Printer.isShowable_iff] at hshow
    rw [Printer.isBreak_iff] at hb
    have hkept : c.toNat = 10 ∨ c.toNat = 0x2028 ∨ c.toNat = 0x2029 := by omega
    exact hkept.imp_left fun hten => by rw [← Char.ofNat_toNat c, hten]

namespace Lexer

variable {l : Lexer} {cols : List Nat} {kinds : List TokenKind} {ka : Bool} {j k w : Nat}
  {body : List Char}

theorem Before.string {mayBePlain : Bool} {cs : List Char}
    (h : l.Before cols kinds ka j (Printer.string (w + 4) mayBePlain cs ++ (margin k ++ body)))
    (hw : cols.head? = some w) (hj : w < j) (hk : k ≤ w) (hbody : Starts body)
    (hne : mayBePlain = true → cs ≠ []) (hlossy : ¬ Printer.Lossy cs) :
    ∃ l' : Lexer, Reads l l' ∧
      l'.Before cols (kinds ++ [.scalar (Printer.writesPlain mayBePlain cs) cs]) true k body := by
  have hdouble (h : l.Before cols kinds ka j (Printer.double cs ++ '\n' :: (margin k ++ body))) :
      ∃ l' : Lexer, Reads l l' ∧ l'.Before cols (kinds ++ [.scalar false cs]) true k body :=
    h.quoted (.inl rfl) hw hj hbody (Quoted.read_double cs (by simp))
  unfold Printer.string at h
  unfold Printer.writesPlain
  by_cases hline : '\n' ∈ cs
  · have hcontains : cs.contains '\n' = true := by simpa using hline
    rw [hcontains]
    rw [if_pos hcontains] at h
    by_cases hblock : (traits cs).allowsBlock = true
    · rw [if_pos hblock, List.append_assoc] at h
      refine h.literal hw hj hk hbody
        (Block.fits_of_allowsBlock (List.ne_nil_of_mem hline) hblock ?_)
      -- A break or a tab in front would make the string lossy.
      intro c hc
      have hopen : ¬ (isBreak c = true ∨ c = '\t') := fun ho => hlossy ⟨hline, hblock, c, hc, ho⟩
      rw [not_or, Bool.not_eq_true] at hopen
      exact hopen
    · rw [if_neg hblock, List.append_assoc] at h
      exact hdouble h
  · have hcontains : ¬ cs.contains '\n' = true := by simpa using hline
    rw [(Bool.not_eq_true _).mp hcontains]
    rw [if_neg hcontains] at h
    cases mayBePlain with
    | false =>
      rw [if_neg Bool.false_ne_true, List.append_assoc] at h
      exact hdouble h
    | true =>
      rw [if_pos rfl, List.append_assoc] at h
      by_cases hplain : (traits cs).allowsPlain = true
      · rw [hplain]
        rw [if_pos hplain] at h
        obtain ⟨hbare, hfirst⟩ := Plain.bare_of_allowsPlain (hne rfl) hplain
        exact h.plain hw hj hk hbody hbare hfirst
      · rw [(Bool.not_eq_true _).mp hplain]
        rw [if_neg hplain] at h
        by_cases hsingle : (traits cs).allowsSingle = true
        · rw [if_pos hsingle] at h
          exact h.quoted (.inr rfl) hw hj hbody (Quoted.read_single (by omega)
            (Quoted.holds_of_allowsSingle hline hsingle) (by simp; decide))
        · rw [if_neg hsingle] at h
          exact hdouble h

end Lexer

theorem solid_of_allowsPlain {c : Char} {cs : List Char}
    (h : (traits (c :: cs)).allowsPlain = true) : Solid c := by
  have hbare := (Plain.bare_of_allowsPlain (List.cons_ne_nil c cs) h).1
  have hline := hbare.onLine c List.mem_cons_self
  have hfirst := hbare.first c rfl
  refine ⟨by simp [isBlank, hfirst.1, hline.2], hline.1, hfirst.2, ?_⟩
  rintro rfl
  simp only [Printer.Traits.allowsPlain, traits, Bool.not_eq_true', Bool.or_eq_false_iff] at h
  exact absurd (Printer.showable_of_mem h.1.1.1.1.1.2 _ List.mem_cons_self) (by decide)

theorem starts_of_head {x : Char} (h : Solid x) (rest : List Char) : Starts (x :: rest) := by
  intro y hy
  obtain rfl : x = y := by simpa using hy
  exact h

namespace Printer

theorem starts_string (width : Nat) {mayBePlain : Bool} {cs : List Char}
    (hne : mayBePlain = true → cs ≠ []) (rest : List Char) :
    Starts (string width mayBePlain cs ++ rest) := by
  have hdouble : Solid '"' := ⟨by decide, by decide, by decide, by decide⟩
  have hsingle : Solid (Char.ofNat 39) := ⟨by decide, by decide, by decide, by decide⟩
  have hbar : Solid '|' := ⟨by decide, by decide, by decide, by decide⟩
  unfold string
  dsimp only
  split
  · split
    · exact starts_of_head hbar _
    · exact starts_of_head hdouble _
  · split
    · next hplain =>
      obtain ⟨c, cs, rfl⟩ := List.exists_cons_of_ne_nil (hne hplain)
      split
      · next h => exact starts_of_head (solid_of_allowsPlain h) _
      · split
        · exact starts_of_head hsingle _
        · exact starts_of_head hdouble _
    · exact starts_of_head hdouble _

theorem bytes_ne_nil_of_chars? {t : Text} (h : chars? t = none) : t.bytes ≠ [] := by
  induction t with
  | nil => cases h
  | cons g t ih =>
    cases g with
    | char c =>
      have htail := ih (Option.map_eq_none_iff.mp h)
      exact fun he => htail (List.append_eq_nil_iff.mp he).2
    | stray b => exact List.cons_ne_nil b _

theorem exists_base64Lines {data : Bytes} (h : data ≠ []) :
    ∃ c tail, base64Lines data = c :: tail ∧ Base64.IsSign c := by
  obtain ⟨c, tail, he⟩ := List.exists_cons_of_ne_nil (Base64.encode_ne_nil h)
  have hc : Base64.IsSign c :=
    Base64.isSign_of_mem_encode data c (by rw [he]; exact List.mem_cons_self)
  unfold base64Lines
  dsimp only
  split
  · exact ⟨c, tail, he, hc⟩
  · rw [he]
    obtain ⟨n, hn⟩ : ∃ n, ((c :: tail).length + 69) / 70 = n + 1 := by
      refine Nat.exists_eq_add_one_of_ne_zero ?_
      rw [List.length_cons]
      omega
    rw [hn, List.range_succ_eq_map, List.flatMap_cons]
    exact ⟨c, _, rfl, hc⟩

theorem not_lossy_base64Lines {data : Bytes} (h : data ≠ []) : ¬ Lossy (base64Lines data) := by
  obtain ⟨c, tail, he, hc⟩ := exists_base64Lines h
  rintro ⟨-, -, d, hd, hopen⟩
  rw [he] at hd
  obtain rfl : c = d := by simpa using hd
  have hrange : 43 ≤ c.toNat ∧ c.toNat ≤ 122 := by
    rcases Base64.toNat_of_isSign hc with h | h | h | rfl | rfl | rfl
    · omega
    · omega
    · omega
    · decide
    · decide
    · decide
  rcases hopen with hbreak | rfl
  · rw [isBreak_iff] at hbreak
    omega
  · exact absurd hrange.1 (by decide)

theorem ne_nil_of_readsAsString {cs : List Char} (h : readsAsString cs = true) : cs ≠ [] := by
  rintro rfl
  exact absurd h (by decide)

/-- A text that is not written as a lossy literal block. -/
def Kept (t : Text) : Prop := ∀ cs ∈ chars? t, ¬ Lossy cs

instance (t : Text) : Decidable (Kept t) :=
  inferInstanceAs (Decidable (∀ cs ∈ chars? t, ¬ Lossy cs))

def textKinds (t : Text) : List TokenKind :=
  match chars? t with
  | some cs => [.scalar (writesPlain (readsAsString cs) cs) cs]
  | none =>
    let lines := base64Lines t.bytes
    [.tag Lexer.binaryTag, .scalar (writesPlain true lines) lines]

end Printer

namespace Lexer

variable {l : Lexer} {cols : List Nat} {kinds : List TokenKind} {j k w : Nat} {body : List Char}

theorem Before.text {t : Text}
    (h : l.Before cols kinds false j (Printer.text (w + 4) t ++ (margin k ++ body)))
    (hw : cols.head? = some w) (hj : w < j) (hk : k ≤ w) (hbody : Starts body)
    (ht : Printer.Kept t) :
    ∃ l' : Lexer, Reads l l' ∧ l'.Before cols (kinds ++ Printer.textKinds t) true k body := by
  unfold Printer.text at h
  unfold Printer.textKinds
  cases hchars : Printer.chars? t with
  | some cs =>
    rw [hchars] at h
    exact h.string hw hj hk hbody Printer.ne_nil_of_readsAsString (ht cs hchars)
  | none =>
    rw [hchars, List.append_assoc] at h
    have hbytes := Printer.bytes_ne_nil_of_chars? hchars
    have hne : true = true → Printer.base64Lines t.bytes ≠ [] := by
      obtain ⟨c, tail, he, -⟩ := Printer.exists_base64Lines hbytes
      simp [he]
    obtain ⟨l₁, hreads₁, h₁⟩ := h.binary hw hj (Printer.starts_string _ hne _)
    obtain ⟨l₂, hreads₂, h₂⟩ :=
      h₁.string hw (by omega) hk hbody hne (Printer.not_lossy_base64Lines hbytes)
    refine ⟨l₂, hreads₁.trans hreads₂, ?_⟩
    rwa [List.append_assoc] at h₂

end Lexer

theorem Printer.starts_text (width : Nat) (t : Text) (rest : List Char) :
    Starts (text width t ++ rest) := by
  unfold text
  split
  · exact starts_string width ne_nil_of_readsAsString rest
  · exact starts_of_head ⟨by decide, by decide, by decide, by decide⟩ _

end FlowPack.Yaml
