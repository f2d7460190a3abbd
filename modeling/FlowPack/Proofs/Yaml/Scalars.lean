import FlowPack.Proofs.Yaml.Cursors
import FlowPack.Proofs.Yaml.Spelling
import Mathlib.Data.List.TakeWhile

namespace FlowPack.Yaml

open Printer (margin)

theorem Cursor.atDocumentEdge_of_column {c : Cursor} (h : 0 < c.mark.column) :
    c.atDocumentEdge = false := by
  simp [atDocumentEdge, atIndicator, Nat.ne_of_gt h]

theorem Cursor.atDocumentEdge_of_next {c : Cursor} (h : ∀ x ∈ c.next?, x ≠ '-' ∧ x ≠ '.') :
    c.atDocumentEdge = false := by
  obtain ⟨rest, m, b⟩ := c
  rcases rest with _ | ⟨x, _ | ⟨y, _ | ⟨z, rest⟩⟩⟩
  · simp [atDocumentEdge, atIndicator]
  · simp [atDocumentEdge, atIndicator]
  · simp [atDocumentEdge, atIndicator]
  · have := h x rfl
    simp [atDocumentEdge, atIndicator, this]

theorem exists_word_gap (p : Char → Bool) (cs : List Char) :
    ∃ w gap rest, cs = w ++ (gap ++ rest) ∧ (∀ c ∈ w, p c = false) ∧ (∀ c ∈ gap, p c = true) ∧
      (∀ c ∈ rest.head?, p c = false) ∧ (gap = [] → rest = []) := by
  have hhead (q : Char → Bool) (l : List Char) : ∀ c ∈ (l.dropWhile q).head?, q c = false := by
    intro c hc
    have h := List.head?_dropWhile_not q l
    rwa [show (l.dropWhile q).head? = some c from hc] at h
  refine ⟨cs.takeWhile fun c => !p c, (cs.dropWhile fun c => !p c).takeWhile p,
    (cs.dropWhile fun c => !p c).dropWhile p, ?_, ?_, ?_, hhead p _, ?_⟩
  · rw [List.takeWhile_append_dropWhile, List.takeWhile_append_dropWhile]
  · intro c hc
    simpa using List.mem_takeWhile_imp hc
  · exact fun c hc => List.mem_takeWhile_imp hc
  · intro hgap
    have hl := hhead (fun c => !p c) cs
    cases hd : cs.dropWhile fun c => !p c with
    | nil => rfl
    | cons x l =>
      rw [hd] at hgap hl
      have hx : p x = true := by simpa using hl x rfl
      simp [hx] at hgap

namespace Quoted

/-- Between the quotes, a run of characters stands for one character. -/
def Spells (quote c : Char) (run : List Char) : Prop :=
  ∀ (rest : List Char) (m : Mark) (b : Bool),
    piece? quote ⟨run ++ rest, m, b⟩ = some (.char c ⟨rest, m.along run.length, false⟩)

/-- How a text stands between the quotes: words, and between them blanks or line breaks. The line
after a break is indented. -/
inductive Written (quote : Char) (f : Char → List Char) : List Char → List Char → Prop
  | word {w : List Char} (hw : ∀ c ∈ w, Spells quote c (f c)) : Written quote f w (w.flatMap f)
  | blanks {w cs out : List Char} {k : Nat} (hw : ∀ c ∈ w, Spells quote c (f c))
    (h : Written quote f cs out) (hsolid : ∀ x ∈ out.head?, isBlank x = false ∧ isBreak x = false) :
    Written quote f (w ++ (margin (k + 1) ++ cs)) (w.flatMap f ++ (margin (k + 1) ++ out))
  | breaks {w xs cs out : List Char} {x : Char} {k : Nat} (hw : ∀ c ∈ w, Spells quote c (f c))
    (hx : Cursor.IsKept x) (hn : x ≠ '\n') (hxs : ∀ y ∈ xs, Cursor.IsKept y)
    (h : Written quote f cs out) (hsolid : ∀ x ∈ out.head?, isBlank x = false ∧ isBreak x = false)
    (hk : 0 < k ∨ out = []) :
    Written quote f (w ++ (x :: xs ++ cs)) (w.flatMap f ++ (x :: xs ++ (margin k ++ out)))

/-- Nothing of a word stands here. -/
def Stops (quote : Char) (rest : List Char) : Prop :=
  ∀ (m : Mark) (b : Bool), piece? quote ⟨rest, m, b⟩ = some .none

theorem stops_of_gap {quote x : Char} {rest : List Char} (h : isBlank x || isBreak x) :
    Stops quote (x :: rest) := by
  intro m b
  simp [piece?, h]

theorem word_written {quote : Char} {f : Char → List Char} {w rest : List Char}
    (hw : ∀ c ∈ w, Spells quote c (f c)) (hrest : Stops quote rest) {n : Nat} (hn : w.length < n)
    (acc : List Char) (m : Mark) (b : Bool) :
    ∃ m' b',
      word quote n acc ⟨w.flatMap f ++ rest, m, b⟩ =
        some (w.reverse ++ acc, false, ⟨rest, m', b'⟩) := by
  induction w generalizing n acc m b with
  | nil =>
    obtain ⟨n, rfl⟩ := Nat.exists_eq_add_one_of_ne_zero (Nat.ne_of_gt hn)
    exact ⟨m, b, by simp [word, hrest m b]⟩
  | cons c w ih =>
    obtain ⟨n, rfl⟩ := Nat.exists_eq_add_one_of_ne_zero (Nat.ne_zero_of_lt hn)
    rw [List.forall_mem_cons] at hw
    obtain ⟨m', b', he⟩ :=
      ih hw.2 (Nat.lt_of_succ_lt_succ hn) (c :: acc) (m.along (f c).length) false
    refine ⟨m', b', ?_⟩
    rw [List.flatMap_cons, List.append_assoc, word, hw.1]
    simpa using he

def IsQuote (quote : Char) : Prop := quote = '"' ∨ quote = apostrophe

theorem IsQuote.solid {quote : Char} (h : IsQuote quote) :
    isBlank quote = false ∧ isBreak quote = false := by
  rcases h with rfl | rfl <;> decide

theorem stops_of_quote {quote : Char} (h : IsQuote quote) {after : List Char}
    (ha : after.head? ≠ some quote) : Stops quote (quote :: after) := by
  intro m b
  simp [piece?, h.solid, ha]

theorem Spells.ne_nil {quote c : Char} {run : List Char} (h : Spells quote c run) : run ≠ [] := by
  rintro rfl
  cases h [] {} false

theorem Spells.head?_append {quote c : Char} {run : List Char} (h : Spells quote c run)
    (rest : List Char) :
    ∀ x ∈ (run ++ rest).head?, isBlank x = false ∧ isBreak x = false := by
  intro x hx
  have hp := h rest {} false
  have hne := h.ne_nil
  cases run with
  | nil => exact absurd rfl hne
  | cons y run =>
    obtain rfl : y = x := by simpa using hx
    cases hgap : isBlank y || isBreak y with
    | true => simp [piece?, hgap] at hp
    | false => simpa using hgap

theorem length_le_flatMap {quote : Char} {f : Char → List Char} {w : List Char}
    (hw : ∀ c ∈ w, Spells quote c (f c)) : w.length ≤ (w.flatMap f).length := by
  induction w with
  | nil => exact Nat.le_refl _
  | cons c w ih =>
    rw [List.forall_mem_cons] at hw
    have hc := List.length_pos_iff.mpr hw.1.ne_nil
    have := ih hw.2
    simp only [List.flatMap_cons, List.length_append, List.length_cons]
    omega

section Words

variable {quote : Char} {f : Char → List Char} {w : List Char}
  (hw : ∀ c ∈ w, Spells quote c (f c))

include hw

theorem words_word {rest : List Char} (hrest : Stops quote rest) (hne : rest ≠ []) (n : Nat)
    (text : List Char) {m : Mark} {b : Bool}
    (hedge : (⟨w.flatMap f ++ rest, m, b⟩ : Cursor).atDocumentEdge = false) :
    ∃ m' b', words quote (n + 1) text ⟨w.flatMap f ++ rest, m, b⟩ =
      if rest.head? = some quote then some ⟨text ++ w, (⟨rest, m', b'⟩ : Cursor).skip 1⟩
      else
        (Fold.read (-1) (rest.length + 1) {} ⟨rest, m', b'⟩).bind fun (gap, c) =>
          words quote n (text ++ w ++ gap.text) c := by
  have hlen : w.length < (w.flatMap f ++ rest).length + 1 := by
    have := length_le_flatMap hw
    rw [List.length_append]
    omega
  obtain ⟨m', b', hword⟩ := word_written hw hrest hlen [] m b
  refine ⟨m', b', ?_⟩
  have hempty : (w.flatMap f ++ rest).isEmpty = false := by
    cases rest with
    | nil => exact absurd rfl hne
    | cons x rest => simp
  rw [words, hedge]
  simp only [hempty, Bool.or_self, Bool.false_eq_true, if_false, hword, List.append_nil,
    List.reverse_reverse, Cursor.next?, beq_iff_eq]
  split
  · rfl
  · cases Fold.read (-1) (rest.length + 1) {} ⟨rest, m', b'⟩ with
    | none => rfl
    | some r => rfl

theorem words_blanks (hq : IsQuote quote) {k : Nat} {rest : List Char}
    (hrest : ∀ x ∈ rest.head?, isBlank x = false ∧ isBreak x = false) (n : Nat) (text : List Char)
    {m : Mark} {b : Bool}
    (hedge : (⟨w.flatMap f ++ (margin (k + 1) ++ rest), m, b⟩ : Cursor).atDocumentEdge = false) :
    ∃ m' b', 0 < m'.column ∧
      words quote (n + 1) text ⟨w.flatMap f ++ (margin (k + 1) ++ rest), m, b⟩ =
        words quote n (text ++ w ++ margin (k + 1)) ⟨rest, m', b'⟩ := by
  have hs : margin (k + 1) = ' ' :: margin k := List.replicate_succ
  have hstops : Stops quote (margin (k + 1) ++ rest) := by
    rw [hs, List.cons_append]
    exact stops_of_gap (by decide)
  have hhead : (margin (k + 1) ++ rest).head? ≠ some quote := by
    rw [hs]
    rcases hq with rfl | rfl <;> simp [apostrophe]
  have hlen : k + 1 ≤ (margin (k + 1) ++ rest).length + 1 := by
    simp only [List.length_append, margin, List.length_replicate]
    omega
  obtain ⟨m', b', he⟩ := words_word hw hstops (by simp [hs]) n text hedge
  refine ⟨m'.along (k + 1), b', Nat.succ_pos _, ?_⟩
  rw [he, if_neg hhead, Fold.read_blanks _ hlen hrest, Option.bind_some]
  simp [Fold.text]

theorem words_breaks (hq : IsQuote quote) {x : Char} {xs : List Char} (hx : Cursor.IsKept x)
    (hnl : x ≠ '\n') (hxs : ∀ y ∈ xs, Cursor.IsKept y) {k : Nat} {rest : List Char}
    (hrest : ∀ x ∈ rest.head?, isBlank x = false ∧ isBreak x = false) (n : Nat) (text : List Char)
    {m : Mark} {b : Bool}
    (hedge : (⟨w.flatMap f ++ (x :: xs ++ (margin k ++ rest)), m, b⟩ : Cursor).atDocumentEdge =
      false) :
    ∃ m', m'.column = k ∧
      words quote (n + 1) text ⟨w.flatMap f ++ (x :: xs ++ (margin k ++ rest)), m, b⟩ =
        words quote n (text ++ w ++ x :: xs) ⟨rest, m', true⟩ := by
  have hstops : Stops quote (x :: xs ++ (margin k ++ rest)) :=
    stops_of_gap (by rw [hx.isBreak, Bool.or_true])
  have hhead : (x :: xs ++ (margin k ++ rest)).head? ≠ some quote := by
    intro he
    obtain rfl : x = quote := by simpa using he
    exact absurd hx.isBreak (by simp [hq.solid.2])
  have hlen : (x :: xs).length + k ≤ (x :: xs ++ (margin k ++ rest)).length + 1 := by
    simp only [List.length_append, margin, List.length_replicate]
    omega
  obtain ⟨m', b', he⟩ := words_word hw hstops (List.cons_ne_nil _ _) n text hedge
  obtain ⟨m₁, hm₁, hread⟩ := Fold.read_breaks (m := m') (b := b') (-1) hx hxs hlen hrest
  refine ⟨m₁, hm₁, ?_⟩
  rw [he, if_neg hhead, hread, Option.bind_some]
  simp [Fold.text, hnl]

end Words

theorem IsQuote.atDocumentEdge {quote : Char} (hq : IsQuote quote) {out : List Char} {m : Mark}
    (hm : 0 < m.column ∨ out = []) (after : List Char) (b : Bool) :
    (⟨out ++ quote :: after, m, b⟩ : Cursor).atDocumentEdge = false := by
  rcases hm with hm | rfl
  · exact Cursor.atDocumentEdge_of_column hm
  · apply Cursor.atDocumentEdge_of_next
    intro x hx
    obtain rfl : quote = x := by simpa [Cursor.next?] using hx
    rcases hq with rfl | rfl <;> decide

theorem IsQuote.head?_append {quote : Char} (hq : IsQuote quote) {out : List Char}
    (h : ∀ x ∈ out.head?, isBlank x = false ∧ isBreak x = false) (after : List Char) :
    ∀ x ∈ (out ++ quote :: after).head?, isBlank x = false ∧ isBreak x = false := by
  cases out with
  | nil => simpa using hq.solid
  | cons y out => exact h

/-- A text is read back from the way it stands between quotes. -/
theorem words_written {quote : Char} (hq : IsQuote quote) {f : Char → List Char}
    {cs out : List Char} (h : Written quote f cs out) {after : List Char}
    (ha : after.head? ≠ some quote) {n : Nat} (hn : cs.length < n) (text : List Char) {m : Mark}
    {b : Bool} (hm : 0 < m.column ∨ out = []) :
    ∃ m', words quote n text ⟨out ++ quote :: after, m, b⟩ =
      some ⟨text ++ cs, ⟨after, m', false⟩⟩ := by
  induction h generalizing n text m b with
  | word hw =>
    obtain ⟨n, rfl⟩ := Nat.exists_eq_add_one_of_ne_zero (Nat.ne_zero_of_lt hn)
    obtain ⟨m', b', he⟩ := words_word hw (stops_of_quote hq ha) (List.cons_ne_nil _ _) n text
      (hq.atDocumentEdge hm _ _)
    refine ⟨m'.along 1, ?_⟩
    rw [he, if_pos (List.head?_cons ..), Cursor.skip_one, hq.solid.1, Bool.and_false]
  | @blanks w cs out k hw h hsolid ih =>
    obtain ⟨n, rfl⟩ := Nat.exists_eq_add_one_of_ne_zero (Nat.ne_zero_of_lt hn)
    have hedge := hq.atDocumentEdge hm after b
    rw [List.append_assoc, List.append_assoc] at hedge ⊢
    obtain ⟨m', b', hm', he⟩ := words_blanks hw hq (hq.head?_append hsolid after) n text hedge
    have hlen : cs.length < n := by
      simp only [List.length_append, margin, List.length_replicate] at hn
      omega
    obtain ⟨m'', hrec⟩ := ih hlen (text ++ w ++ margin (k + 1)) (b := b') (.inl hm')
    exact ⟨m'', by rw [he, hrec, List.append_assoc, List.append_assoc]⟩
  | @breaks w xs cs out x k hw hx hnl hxs h hsolid hk ih =>
    obtain ⟨n, rfl⟩ := Nat.exists_eq_add_one_of_ne_zero (Nat.ne_zero_of_lt hn)
    have hedge := hq.atDocumentEdge hm after b
    rw [List.append_assoc, List.append_assoc, List.append_assoc] at hedge ⊢
    obtain ⟨m', hm', he⟩ :=
      words_breaks hw hq hx hnl hxs (hq.head?_append hsolid after) n text hedge
    have hlen : cs.length < n := by
      simp only [List.length_append, List.length_cons] at hn
      omega
    obtain ⟨m'', hrec⟩ := ih hlen (text ++ w ++ x :: xs) (b := true) (by rwa [hm'])
    exact ⟨m'', by rw [he, hrec, List.append_assoc, List.append_assoc]⟩

theorem Written.length_le {quote : Char} {f : Char → List Char} {cs out : List Char}
    (h : Written quote f cs out) : cs.length ≤ out.length := by
  induction h with
  | word hw => exact length_le_flatMap hw
  | blanks hw h hsolid ih =>
    have := length_le_flatMap hw
    simp only [List.length_append]
    omega
  | breaks hw hx hn hxs h hsolid hk ih =>
    have := length_le_flatMap hw
    simp only [List.length_append]
    omega

theorem flatMap_margin {f : Char → List Char} (hf : f ' ' = [' ']) (k : Nat) :
    (margin k).flatMap f = margin k := by
  induction k with
  | zero => rfl
  | succ k ih => rw [margin, List.replicate_succ, List.flatMap_cons, hf, ← margin, ih]; rfl

open Printer (Escaped escaped escaped_spec)

theorem isBreak_of_escape? {x : Char} {r : Char ⊕ Nat} (h : escape? x = some r) :
    isBreak x = false := by
  cases hb : isBreak x with
  | false => rfl
  | true =>
    have hx {n : Nat} (hn : x.toNat = n) : x = Char.ofNat n := by rw [← hn, Char.ofNat_toNat]
    rcases Printer.isBreak_iff.mp hb with hn | hn | hn | hn | hn <;> rw [hx hn] at h <;>
      exact absurd h (by simp [escape?, apostrophe])

theorem skip_escape (run rest : List Char) (m : Mark) (b : Bool) :
    (⟨'\\' :: run ++ rest, m, b⟩ : Cursor).skip (run.length + 1) =
      ⟨rest, m.along (run.length + 1), false⟩ := by
  have h : (⟨('\\' :: run) ++ rest, m, b⟩ : Cursor).skip ('\\' :: run).length = _ :=
    Cursor.skip_length _
  have hblank : isBlank '\\' = false := by decide
  rwa [List.all_cons, hblank, Bool.false_and, Bool.and_false] at h

theorem spells_escaped {c : Char} {run : List Char} (h : Escaped c run) (hc : c ≠ ' ') :
    Spells '"' c run := by
  intro rest m b
  have hslash : isBlank '\\' = false ∧ isBreak '\\' = false := by decide
  cases h with
  | shown hshow hbreak hquote hslash =>
    have htab : c ≠ '\t' := by
      rintro rfl
      exact absurd hshow (by decide)
    have hblank : isBlank c = false := by simp [isBlank, hc, htab]
    simp [piece?, hblank, hbreak, hquote, hslash]
  | @named x hx =>
    have hskip := skip_escape [x] rest m b
    simp only [List.cons_append, List.nil_append] at hskip ⊢
    simpa [piece?, hslash, isBreak_of_escape? hx, hx] using hskip
  | @coded x ds hx hcode =>
    have hskip := skip_escape (x :: ds) rest m b
    simp only [List.cons_append] at hskip ⊢
    simpa [piece?, hslash, isBreak_of_escape? hx, hx, hcode] using hskip

theorem written_double (cs : List Char) : Written '"' escaped cs (cs.flatMap escaped) := by
  induction hn : cs.length using Nat.strongRecOn generalizing cs with
  | ind n ih =>
    obtain ⟨w, gap, rest, rfl, hw, hgap, hrest, hend⟩ := exists_word_gap (· == ' ') cs
    have hspells : ∀ c ∈ w, Spells '"' c (escaped c) := fun c hc =>
      spells_escaped (escaped_spec c) (by simpa using hw c hc)
    cases gap with
    | nil =>
      rw [hend rfl, List.append_nil, List.append_nil]
      exact .word hspells
    | cons x gap =>
      have hmargin : x :: gap = margin (gap.length + 1) :=
        List.eq_replicate_iff.mpr ⟨rfl, fun c hc => by simpa using hgap c hc⟩
      have hwritten := ih rest.length (by
        rw [← hn]
        simp
        omega) rest rfl
      rw [hmargin, List.flatMap_append, List.flatMap_append, flatMap_margin (by decide)]
      refine .blanks hspells hwritten ?_
      cases rest with
      | nil => simp
      | cons c rest =>
        have hc := spells_escaped (escaped_spec c) (by simpa using hrest c rfl)
        exact hc.head?_append _

open Printer (singleFrom singleFrom_cons isShowable isShowable_iff)

def doubled (c : Char) : List Char := if c.toNat = 39 then [c, c] else [c]

theorem spells_doubled {c : Char} (hblank : isBlank c = false) (hbreak : isBreak c = false) :
    Spells apostrophe c (doubled c) := by
  intro rest m b
  unfold doubled
  split
  · next hc =>
    obtain rfl : c = apostrophe := by
      rw [apostrophe, ← hc, Char.ofNat_toNat]
    have hskip : (⟨[apostrophe, apostrophe] ++ rest, m, b⟩ : Cursor).skip 2 = _ :=
      Cursor.skip_length [apostrophe, apostrophe]
    simp only [List.cons_append, List.nil_append] at hskip ⊢
    simpa [piece?, hblank, hbreak] using hskip
  · next hc =>
    have hne : c ≠ apostrophe := by
      rintro rfl
      exact hc (by decide)
    have hquote : apostrophe ≠ '"' := by decide
    simp [piece?, hblank, hbreak, hne, hquote]

theorem singleFrom_append (k : Nat) {w : List Char} (hw : ∀ c ∈ w, isBreak c = false)
    (rest : List Char) :
    singleFrom k false (w ++ rest) = w.flatMap doubled ++ singleFrom k false rest := by
  induction w with
  | nil => rfl
  | cons c w ih =>
    rw [List.forall_mem_cons] at hw
    rw [List.cons_append, singleFrom_cons, hw.1, ih hw.2, List.flatMap_cons, List.append_assoc]
    rfl

theorem singleFrom_breaks (k : Nat) (b : Bool) (x : Char) {xs : List Char}
    (hxs : ∀ c ∈ x :: xs, isBreak c = true) (rest : List Char) :
    singleFrom k b (x :: xs ++ rest) = x :: xs ++ singleFrom k true rest := by
  induction xs generalizing b x with
  | nil => exact if_pos (hxs x List.mem_cons_self)
  | cons y xs ih =>
    rw [List.forall_mem_cons] at hxs
    rw [List.cons_append, singleFrom, if_pos hxs.1, ih true y hxs.2]
    rfl

theorem singleFrom_afterBreak (k : Nat) {rest : List Char}
    (h : ∀ c ∈ rest.head?, isBreak c = false) :
    ∃ j, (j = k ∨ rest = []) ∧ singleFrom k true rest = margin j ++ singleFrom k false rest := by
  cases rest with
  | nil => exact ⟨0, .inr rfl, rfl⟩
  | cons c rest =>
    have hc := h c rfl
    exact ⟨k, .inl rfl, by simp [singleFrom, hc]⟩

/-- What single quotes cannot hold is missing. -/
structure Holds (cs : List Char) : Prop where
  shown : ∀ c ∈ cs, isShowable c = true
  noLine : '\n' ∉ cs
  afterSpace : cs.IsChain fun a b => a = ' ' → isBreak b = false
  afterBreak : cs.IsChain fun a b => isBreak a = true → b ≠ ' '

theorem Holds.of_append {w cs : List Char} (h : Holds (w ++ cs)) : Holds cs where
  shown c hc := h.shown c (List.mem_append_right _ hc)
  noLine hc := h.noLine (List.mem_append_right _ hc)
  afterSpace := (List.isChain_append.mp h.afterSpace).2.1
  afterBreak := (List.isChain_append.mp h.afterBreak).2.1

theorem Holds.uniform {x : Char} {gap rest : List Char} (h : Holds (x :: gap ++ rest))
    (hgap : ∀ c ∈ x :: gap, (c == ' ' || isBreak c) = true) :
    (∀ c ∈ x :: gap, c = ' ') ∨ (∀ c ∈ x :: gap, isBreak c = true) := by
  induction gap generalizing x with
  | nil =>
    simpa using hgap
  | cons y gap ih =>
    rw [List.forall_mem_cons] at hgap
    have hspace := (List.isChain_cons_cons.mp h.afterSpace).1
    have hbreak := (List.isChain_cons_cons.mp h.afterBreak).1
    have hx : x = ' ' ∨ isBreak x = true := by simpa using hgap.1
    rcases ih (h.of_append (w := [x])) hgap.2 with hall | hall
    · refine .inl (List.forall_mem_cons.mpr ⟨?_, hall⟩)
      rcases hx with hx | hx
      · exact hx
      · exact absurd (hall y List.mem_cons_self) (hbreak hx)
    · refine .inr (List.forall_mem_cons.mpr ⟨?_, hall⟩)
      rcases hx with hx | hx
      · exact absurd (hall y List.mem_cons_self) (by simp [hspace hx])
      · exact hx

theorem isKept_of_isShowable {c : Char} (hbreak : isBreak c = true) (hshow : isShowable c = true) :
    Cursor.IsKept c := by
  rcases Printer.isBreak_iff.mp hbreak with h | h | h | h | h
  · exact .inl (Char.toNat_inj.mp h)
  · exact absurd (isShowable_iff.mp hshow) (by omega)
  · exact absurd (isShowable_iff.mp hshow) (by omega)
  · exact .inr (.inl h)
  · exact .inr (.inr h)

theorem solid_of_isShowable {c : Char} (hc : (c == ' ' || isBreak c) = false)
    (hshow : isShowable c = true) : isBlank c = false ∧ isBreak c = false := by
  rw [Bool.or_eq_false_iff] at hc
  have htab : c ≠ '\t' := by
    rintro rfl
    exact absurd hshow (by decide)
  exact ⟨by simp [isBlank, htab, hc.1], hc.2⟩

theorem Holds.head?_singleFrom {cs : List Char} (h : Holds cs)
    (hcs : ∀ c ∈ cs.head?, (c == ' ' || isBreak c) = false) (k : Nat) :
    ∀ x ∈ (singleFrom k false cs).head?, isBlank x = false ∧ isBreak x = false := by
  cases cs with
  | nil => simp [singleFrom]
  | cons c cs =>
    have hc := solid_of_isShowable (hcs c rfl) (h.shown c List.mem_cons_self)
    rw [singleFrom_cons]
    exact (spells_doubled hc.1 hc.2).head?_append _

theorem written_single {k : Nat} (hk : 0 < k) {cs : List Char} (h : Holds cs) :
    Written apostrophe doubled cs (singleFrom k false cs) := by
  induction hn : cs.length using Nat.strongRecOn generalizing cs with
  | ind n ih =>
    obtain ⟨w, gap, rest, rfl, hw, hgap, hrest, hend⟩ :=
      exists_word_gap (fun c => c == ' ' || isBreak c) cs
    have hword : ∀ c ∈ w, isBlank c = false ∧ isBreak c = false := fun c hc =>
      solid_of_isShowable (hw c hc) (h.shown c (List.mem_append_left _ hc))
    have hspells : ∀ c ∈ w, Spells apostrophe c (doubled c) := fun c hc =>
      spells_doubled (hword c hc).1 (hword c hc).2
    rw [singleFrom_append k fun c hc => (hword c hc).2]
    cases gap with
    | nil =>
      rw [hend rfl, List.append_nil, singleFrom, List.append_nil, List.append_nil]
      exact .word hspells
    | cons x gap =>
      have hgapped := h.of_append
      have hheld := hgapped.of_append
      have hwritten := ih rest.length (by
        rw [← hn]
        simp
        omega) hheld rfl
      have hhead := hheld.head?_singleFrom hrest k
      -- A gap that mixed spaces and breaks would not be held.
      rcases hgapped.uniform hgap with hall | hall
      · have hmargin : x :: gap = margin (gap.length + 1) :=
          List.eq_replicate_iff.mpr ⟨rfl, hall⟩
        have hspace : ∀ c ∈ x :: gap, isBreak c = false := fun c hc => by rw [hall c hc]; decide
        rw [singleFrom_append k hspace, hmargin, flatMap_margin (by decide)]
        exact .blanks hspells hwritten hhead
      · have hkept : ∀ c ∈ x :: gap, Cursor.IsKept c := fun c hc =>
          isKept_of_isShowable (hall c hc) (hgapped.shown c (List.mem_append_left _ hc))
        have hnl : x ≠ '\n' := by
          rintro rfl
          exact hgapped.noLine List.mem_cons_self
        obtain ⟨j, hj, he⟩ := singleFrom_afterBreak k fun c hc =>
          (Bool.or_eq_false_iff.mp (hrest c hc)).2
        rw [List.forall_mem_cons] at hkept
        rw [singleFrom_breaks k false x hall, he]
        refine .breaks hspells hkept.1 hnl hkept.2 hwritten hhead ?_
        rcases hj with rfl | rfl
        · exact .inl hk
        · exact .inr rfl

theorem read_written {quote : Char} (hq : IsQuote quote) {f : Char → List Char}
    {cs out : List Char} (h : Written quote f cs out) {after : List Char}
    (ha : after.head? ≠ some quote) (m : Mark) (b : Bool) :
    ∃ m', read quote ⟨quote :: out ++ quote :: after, m, b⟩ = some ⟨cs, ⟨after, m', false⟩⟩ := by
  have hn : cs.length < (out ++ quote :: after).length + 1 := by
    have := h.length_le
    rw [List.length_append]
    omega
  obtain ⟨m', he⟩ := words_written hq h ha hn [] (m := m.along 1) (b := b && isBlank quote)
    (.inl (Nat.succ_pos _))
  refine ⟨m', ?_⟩
  rw [read, List.cons_append, Cursor.skip_one]
  simpa using he

theorem read_double (cs : List Char) {after : List Char} (ha : after.head? ≠ some '"') (m : Mark)
    (b : Bool) :
    ∃ m', read '"' ⟨Printer.double cs ++ after, m, b⟩ = some ⟨cs, ⟨after, m', false⟩⟩ := by
  have h := read_written (.inl rfl) (written_double cs) ha m b
  rwa [Printer.double, List.append_assoc]

theorem read_single {k : Nat} (hk : 0 < k) {cs : List Char} (hcs : Holds cs) {after : List Char}
    (ha : after.head? ≠ some apostrophe) (m : Mark) (b : Bool) :
    ∃ m', read apostrophe ⟨Printer.single k cs ++ after, m, b⟩ =
      some ⟨cs, ⟨after, m', false⟩⟩ := by
  have h := read_written (.inr rfl) (written_single hk hcs) ha m b
  rwa [Printer.single, List.append_assoc]

end Quoted

end FlowPack.Yaml
