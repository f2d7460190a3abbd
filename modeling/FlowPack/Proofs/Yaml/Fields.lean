import FlowPack.Proofs.Yaml.Numbers
import FlowPack.Proofs.Yaml.Strings

namespace FlowPack.Yaml

open Printer (margin)

theorem Plain.bare_toDigits (n : Nat) : Plain.Bare (Nat.toDigits 10 n) := by
  have hdigit : ∀ c ∈ Nat.toDigits 10 n, 48 ≤ c.toNat ∧ c.toNat ≤ 57 := fun c hc =>
    isDigit_iff.mp (isDigit_of_mem_toDigits hc)
  have hne {c d : Char} (hc : c ∈ Nat.toDigits 10 n) (hd : ¬ (48 ≤ d.toNat ∧ d.toNat ≤ 57)) :
      c ≠ d := by
    rintro rfl
    exact hd (hdigit c hc)
  have hbreak : ∀ c ∈ Nat.toDigits 10 n, isBreak c = false := by
    intro c hc
    have := hdigit c hc
    rw [← Bool.not_eq_true, Printer.isBreak_iff]
    omega
  have hpairs {p : Char → Char → Prop}
      (h : ∀ a ∈ Nat.toDigits 10 n, ∀ b ∈ Nat.toDigits 10 n, p a b) :
      (Nat.toDigits 10 n).IsChain p := (List.pairwise_of_forall_mem_list h).isChain
  exact
    { ne_nil := Nat.toDigits_ne_nil
      onLine := fun c hc => ⟨hbreak c hc, hne hc (by decide)⟩
      first := fun c hc => 
        ⟨hne (List.mem_of_head? hc) (by decide), hne (List.mem_of_head? hc) (by decide)⟩
      last := fun c hc =>
        ⟨hne (List.mem_of_getLast? hc) (by decide), hne (List.mem_of_getLast? hc) (by decide)⟩
      afterColon := hpairs fun a _ b hb _ => hne hb (by decide)
      afterSpace := hpairs fun a _ b hb _ => hne hb (by decide) }

theorem solid_of_isDigit {c : Char} (h : isDigit c = true) : Solid c := by
  rw [isDigit_iff] at h
  have hne {d : Char} (hd : ¬ (48 ≤ d.toNat ∧ d.toNat ≤ 57)) : c ≠ d := by
    rintro rfl
    exact hd h
  refine ⟨?_, ?_, hne (by decide), hne (by decide)⟩
  · simp [isBlank, hne (d := ' ') (by decide), hne (d := '\t') (by decide)]
  · rw [← Bool.not_eq_true, Printer.isBreak_iff]
    omega

theorem not_indicates_of_isDigit {c : Char} (h : isDigit c = true) (after : Option Char) :
    Printer.indicates none c after = false := by
  have hall : ∀ n ∈ List.range' 48 10,
      (Char.ofNat n == '?' || Char.ofNat n == ':' || Char.ofNat n == '-') = false ∧
        ("#,[]\x7b\x7d&*!|>\"%@".toList.contains (Char.ofNat n) || (Char.ofNat n).toNat == 39 ||
          (Char.ofNat n).toNat == 0x60) = false := by decide
  have hn : c.toNat ∈ List.range' 48 10 := by
    rw [List.mem_range'_1]
    have := isDigit_iff.mp h
    omega
  have := hall c.toNat hn
  rw [Char.ofNat_toNat] at this
  simp only [Printer.indicates]
  rw [this.1, this.2, if_neg Bool.false_ne_true]

namespace Lexer

/-- The tokens of the fields that some lines hold. All of them are indented by `w`. -/
def Carries (w : Nat) (lines : List Char) (kinds : List TokenKind) : Prop :=
  ∃ written, lines = margin w ++ written ∧ (∀ rest, Starts (written ++ rest)) ∧
    ∀ ⦃l : Lexer⦄ ⦃cols before opening cols' k body⦄, Opens .blockMapping w cols opening cols' →
      k ≤ w → Starts body → l.Before cols before true w (written ++ (margin k ++ body)) →
      ∃ l' : Lexer, Reads l l' ∧ l'.Before cols' (before ++ (opening ++ kinds)) true k body

theorem Carries.append {w : Nat} {lines₁ lines₂ : List Char} {kinds₁ kinds₂ : List TokenKind}
    (h₁ : Carries w lines₁ kinds₁) (h₂ : Carries w lines₂ kinds₂) :
    Carries w (lines₁ ++ lines₂) (kinds₁ ++ kinds₂) := by
  obtain ⟨written₁, rfl, hstarts₁, h₁⟩ := h₁
  obtain ⟨written₂, rfl, hstarts₂, h₂⟩ := h₂
  refine ⟨written₁ ++ (margin w ++ written₂), by simp, fun rest => ?_, ?_⟩
  · rw [List.append_assoc]
    exact hstarts₁ _
  · intro l cols before opening cols' k body ho hk hbody h
    rw [List.append_assoc, List.append_assoc] at h
    obtain ⟨l₁, hreads₁, hl₁⟩ := h₁ ho (Nat.le_refl w) (hstarts₂ _) h
    obtain ⟨l₂, hreads₂, hl₂⟩ := h₂ (.same ho.head?) hk hbody hl₁
    exact ⟨l₂, hreads₁.trans hreads₂, by simpa using hl₂⟩

theorem starts_toDigits (n : Nat) (rest : List Char) : Starts (Nat.toDigits 10 n ++ rest) := by
  obtain ⟨c, digits, hc⟩ := List.exists_cons_of_ne_nil (Nat.toDigits_ne_nil (b := 10) (n := n))
  rw [hc]
  exact starts_of_head (solid_of_isDigit (isDigit_of_mem_toDigits (hc ▸ List.mem_cons_self))) _

theorem Before.number {l : Lexer} {cols : List Nat} {before : List TokenKind} {ka : Bool}
    {j k w n : Nat} {body : List Char}
    (h : l.Before cols before ka j (Nat.toDigits 10 n ++ '\n' :: (margin k ++ body)))
    (hw : cols.head? = some w) (hj : w < j) (hk : k ≤ w) (hbody : Starts body) :
    ∃ l' : Lexer, Reads l l' ∧
      l'.Before cols (before ++ [.scalar true (Nat.toDigits 10 n)]) true k body :=
  h.plain hw hj hk hbody (Plain.bare_toDigits n) fun _ _ hc =>
    not_indicates_of_isDigit (isDigit_of_mem_toDigits (hc ▸ List.mem_cons_self)) _

def itemLine (n : Nat) : List Char := '-' :: ' ' :: (Nat.toDigits 10 n ++ ['\n'])

def itemKinds (n : Nat) : List TokenKind := [.entry, .scalar true (Nat.toDigits 10 n)]

section Items

variable {l : Lexer} {cols cols' : List Nat} {before opening : List TokenKind} {v k n : Nat}

theorem Before.item {body : List Char}
    (h : l.Before cols before true v (itemLine n ++ (margin k ++ body)))
    (ho : Opens .blockSequence v cols opening cols') (hv : 0 < v) (hk : k ≤ v)
    (hbody : Starts body) :
    ∃ l' : Lexer, Reads l l' ∧
      l'.Before cols' (before ++ (opening ++ itemKinds n)) true k body := by
  rw [show itemLine n ++ (margin k ++ body) =
    '-' :: ' ' :: (Nat.toDigits 10 n ++ '\n' :: (margin k ++ body)) by simp [itemLine]] at h
  obtain ⟨l₁, hreads₁, hl₁⟩ := h.entry ho hv (starts_toDigits n _)
  obtain ⟨l₂, hreads₂, hl₂⟩ := hl₁.number ho.head? (by omega) hk hbody
  exact ⟨l₂, hreads₁.trans hreads₂, by simpa [itemKinds] using hl₂⟩

theorem Before.items {ns : List Nat} {body : List Char}
    (h : l.Before cols before true v
      (itemLine n ++ (ns.flatMap (fun n => margin v ++ itemLine n) ++ (margin k ++ body))))
    (ho : Opens .blockSequence v cols opening cols') (hv : 0 < v) (hk : k ≤ v)
    (hbody : Starts body) :
    ∃ l' : Lexer, Reads l l' ∧
      l'.Before cols' (before ++ (opening ++ (n :: ns).flatMap itemKinds)) true k body := by
  induction ns generalizing l cols before opening n with
  | nil => simpa using h.item ho hv hk hbody
  | cons m ns ih =>
    rw [List.flatMap_cons, List.append_assoc, List.append_assoc] at h
    have hdash : Solid '-' := ⟨by decide, by decide, by decide, by decide⟩
    obtain ⟨l₁, hreads₁, hl₁⟩ := h.item ho hv (Nat.le_refl v) (starts_of_head hdash _)
    obtain ⟨l₂, hreads₂, hl₂⟩ := ih hl₁ (.same ho.head?)
    exact ⟨l₂, hreads₁.trans hreads₂, by simpa using hl₂⟩

end Items

def keyKinds (key : List Char) : List TokenKind := [.key, .scalar true key, .value]

theorem starts_key {key : List Char} (hkey : Plain.IsKey key) (rest : List Char) :
    Starts (key ++ rest) := by
  obtain ⟨c, key, rfl⟩ := List.exists_cons_of_ne_nil hkey.1
  obtain ⟨hblank, hbreak, hother, -⟩ := hkey.letter (List.mem_cons_self)
  refine starts_of_head ⟨hblank, hbreak, ?_, ?_⟩ _
  · rintro rfl
    exact hother (by decide)
  · rintro rfl
    exact absurd (hkey.2 _ List.mem_cons_self) (by decide)

section Field

variable {w : Nat} {key : List Char} (hkey : Plain.IsKey key) (hlen : key.length ≤ keyReach)

include hkey hlen

theorem carries_value {value : List Char} {kinds : List TokenKind}
    (hstarts : ∀ rest, Starts (value ++ rest))
    (hvalue : ∀ ⦃l : Lexer⦄ ⦃cols before j k body⦄, cols.head? = some w → w < j → k ≤ w →
      Starts body → l.Before cols before false j (value ++ (margin k ++ body)) →
      ∃ l' : Lexer, Reads l l' ∧ l'.Before cols (before ++ kinds) true k body) :
    Carries w (margin w ++ key ++ [':', ' '] ++ value) (keyKinds key ++ kinds) := by
  refine ⟨key ++ ':' :: ' ' :: value, by simp, fun rest => ?_, ?_⟩
  · rw [List.append_assoc]
    exact starts_key hkey _
  · intro l cols before opening cols' k body ho hk hbody h
    rw [List.append_assoc] at h
    obtain ⟨l₁, j, hreads₁, hj, hl₁⟩ := h.key_value ho hkey hlen (hstarts _)
    obtain ⟨l₂, hreads₂, hl₂⟩ := hvalue ho.head? hj hk hbody hl₁
    exact ⟨l₂, hreads₁.trans hreads₂, by simpa [keyKinds] using hl₂⟩

theorem carries_block {kind : TokenKind} {written : List Char} {kinds : List TokenKind}
    (hstarts : ∀ rest, Starts (written ++ rest))
    (hblock : ∀ ⦃l : Lexer⦄ ⦃cols before opening cols' k body⦄,
      Opens kind (w + 4) cols opening cols' → k ≤ w → Starts body →
      l.Before cols before true (w + 4) (written ++ (margin k ++ body)) →
      ∃ l' : Lexer, Reads l l' ∧ l'.Before cols' (before ++ (opening ++ kinds)) true k body) :
    Carries w (margin w ++ key ++ [':', '\n'] ++ (margin (w + 4) ++ written))
      (keyKinds key ++ (kind :: kinds ++ [.blockEnd])) := by
  refine ⟨key ++ ':' :: '\n' :: (margin (w + 4) ++ written), by simp, fun rest => ?_, ?_⟩
  · rw [List.append_assoc]
    exact starts_key hkey _
  · intro l cols before opening cols' k body ho hk hbody h
    rw [show key ++ ':' :: '\n' :: (margin (w + 4) ++ written) ++ (margin k ++ body) =
      key ++ ':' :: '\n' :: (margin (w + 4) ++ (written ++ (margin k ++ body))) by simp] at h
    obtain ⟨l₁, hreads₁, hl₁⟩ := h.key_line ho hkey hlen (hstarts _)
    have hdeeper : Opens kind (w + 4) cols' [kind] ((w + 4) :: cols') := by
      refine .deeper fun c hc => ?_
      rw [ho.head?] at hc
      obtain rfl := Option.some.inj hc
      omega
    obtain ⟨l₂, hreads₂, hl₂⟩ := hblock hdeeper hk hbody hl₁
    have hclosed := hl₂.close (by omega)
    exact ⟨l₂, hreads₁.trans hreads₂, by simpa [keyKinds] using hclosed⟩

theorem carries_section {lines : List Char} {kinds : List TokenKind}
    (h : Carries (w + 4) lines kinds) :
    Carries w (margin w ++ key ++ [':', '\n'] ++ lines)
      (keyKinds key ++ (.blockMapping :: kinds ++ [.blockEnd])) := by
  obtain ⟨written, rfl, hstarts, hreads⟩ := h
  exact carries_block hkey hlen hstarts fun _ _ _ _ _ _ _ ho hk => hreads ho (by omega)

theorem carries_numbers (n : Nat) (ns : List Nat) :
    Carries w (margin w ++ key ++ [':', '\n'] ++
        (n :: ns).flatMap fun n => margin (w + 4) ++ itemLine n)
      (keyKinds key ++ (.blockSequence :: (n :: ns).flatMap itemKinds ++ [.blockEnd])) := by
  have hdash : Solid '-' := ⟨by decide, by decide, by decide, by decide⟩
  rw [List.flatMap_cons, List.append_assoc (margin (w + 4))]
  refine carries_block hkey hlen (fun rest => starts_of_head hdash _) ?_
  intro l cols before opening cols' k body ho hk hbody h
  rw [List.append_assoc] at h
  exact h.items ho (by omega) (by omega) hbody

theorem carries_text {t : Text} (ht : Printer.Kept t) :
    Carries w (margin w ++ key ++ [':', ' '] ++ Printer.text (w + 4) t)
      (keyKinds key ++ Printer.textKinds t) :=
  carries_value hkey hlen (Printer.starts_text _ t) fun _ _ _ _ _ _ hw hj hk hbody h =>
    h.text hw hj hk hbody ht

theorem carries_number (n : Nat) :
    Carries w (margin w ++ key ++ [':', ' '] ++ (Nat.toDigits 10 n ++ ['\n']))
      (keyKinds key ++ [.scalar true (Nat.toDigits 10 n)]) := by
  refine carries_value hkey hlen (fun rest => ?_) fun l cols before j k body hw hj hk hbody h => ?_
  · rw [List.append_assoc]
    exact starts_toDigits n _
  · rw [List.append_assoc] at h
    exact h.number hw hj hk hbody

theorem carries_emptyList :
    Carries w (margin w ++ key ++ [':', ' '] ++ "[]\n".toList)
      (keyKinds key ++ [.openList, .closeList]) := by
  refine carries_value hkey hlen (fun rest => ?_) fun l cols before j k body hw hj hk hbody h => ?_
  · exact starts_of_head ⟨by decide, by decide, by decide, by decide⟩ _
  · exact h.emptyList hw hj hbody

end Field

theorem Before.finish {l : Lexer} {kinds : List TokenKind} {ka : Bool}
    (h : l.Before [0] kinds ka 0 []) :
    ∃ ts : List Token, ts.map (·.kind) = kinds ++ [.blockEnd, .streamEnd] ∧
      ∀ n, run (n + 1) l = (ts, true) := by
  obtain ⟨hfree, m, b, hm, hreach⟩ := h
  obtain ⟨cols₀, kinds₀, hholds, hcols, hkinds⟩ := hreach.blocks
  let l₀ : Lexer := { l with keyAllowed := ka, cursor := ⟨[], m, b⟩ }
  have hl₀ : l₀.Holds cols₀ kinds₀ := ⟨hholds.outer, hholds.indents, hholds.kinds⟩
  obtain ⟨hl₁, -, -, hkey₁⟩ := hl₀.unroll m.column
  rw [hcols, hkinds] at hl₁
  obtain ⟨hl₂, -, -, hkey₂⟩ := hl₁.unroll (-1)
  set l₂ := (l₀.unroll m.column).unroll (-1) with hl₂eq
  have hfree₂ : l₂.Free := by rwa [Free, hkey₂, hkey₁]
  have hstep :
      ∃ line, l.step? = some (Lexer.push { l₂ with key := none } .streamEnd line, true) := by
    have hflow : l.inFlow = false := by simp [inFlow, hholds.outer]
    refine ⟨if l₂.cursor.mark.column == 0 then l₂.cursor.mark.line else l₂.cursor.mark.line + 1, ?_⟩
    rw [step?, hflow, hreach.gap]
    show ((dropKey? l₂).map _).map _ = _
    rw [dropKey?_of_free hfree₂]
    rfl
  obtain ⟨line, hstep⟩ := hstep
  refine ⟨_, ?_, fun n => by rw [run, hstep]⟩
  have hlast := (hl₂.push .streamEnd line).kinds
  rw [hm] at hlast
  exact hlast.trans (by simp [staying, closing])

theorem read_of_carries {lines : List Char} {kinds : List TokenKind} (h : Carries 0 lines kinds) :
    ∃ ts : List Token, ts.map (·.kind) = .blockMapping :: kinds ++ [.blockEnd, .streamEnd] ∧
      TokenStream.read lines = ⟨ts, true⟩ := by
  obtain ⟨written, hlines, hstarts, hreads⟩ := h
  obtain rfl : lines = written := hlines
  let l : Lexer := { cursor := { rest := lines } }
  have hl : l.Holds [] [] := ⟨rfl, rfl, rfl⟩
  have hfree : l.Free := by
    intro k hk
    cases hk
  have hbefore : l.Before [] [] true 0 (lines ++ (margin 0 ++ [])) := by
    have hs := hstarts []
    rw [List.append_nil] at hs
    refine ⟨hfree, {}, false, rfl, ?_⟩
    simpa [margin] using hl.reaches (k := 0) rfl hs
  have hopens : Opens .blockMapping 0 [] [.blockMapping] [0] := .deeper fun c hc => by cases hc
  have hnil : Starts [] := by
    intro x hx
    cases hx
  obtain ⟨l', ⟨steps, hsteps, hrun⟩, hl'⟩ := hreads hopens (Nat.le_refl 0) hnil hbefore
  obtain ⟨ts, hts, hfinish⟩ := hl'.finish
  refine ⟨ts, hts, ?_⟩
  have hsteps : steps + l'.cursor.rest.length ≤ lines.length := hsteps
  rw [TokenStream.read, show lines.length + 1 = lines.length - steps + 1 + steps by omega, hrun,
    hfinish]

end Lexer

end FlowPack.Yaml
