import FlowPack.Proofs.Yaml.Scalars

namespace FlowPack.Yaml.Plain

open Printer (margin)

theorem word_append {w rest : List Char}
    (hw : ∀ c ∈ w, isBlank c = false ∧ isBreak c = false) (hlast : ∀ c ∈ w.getLast?, c ≠ ':')
    (hrest : word false rest = []) : word false (w ++ rest) = w := by
  induction w with
  | nil => exact hrest
  | cons c w ih =>
    rw [List.forall_mem_cons] at hw
    have hcolon : c = ':' → separates (w ++ rest).head? = false := by
      rintro rfl
      cases w with
      | nil => exact absurd rfl (hlast ':' rfl)
      | cons d w =>
        have hd := hw.2 d List.mem_cons_self
        simp [separates, hd]
    have htail : word false (w ++ rest) = w := by
      apply ih hw.2
      intro d hd
      cases w with
      | nil => cases hd
      | cons e w => exact hlast d (by simpa using hd)
    have hgo : (c == ':' && separates (w ++ rest).head?) = false := by
      by_cases hc : c = ':'
      · rw [hcolon hc, Bool.and_false]
      · simp [hc]
    rw [List.cons_append, word, hw.1.1, hw.1.2, hgo, htail]
    rfl

theorem word_of_gap {x : Char} {rest : List Char} (h : (isBlank x || isBreak x) = true) :
    word false (x :: rest) = [] := by
  simp [word, h]

/-- A word of a plain scalar. A number sign at its start or a colon at its end would mean
something else. -/
structure IsWord (w : List Char) : Prop where
  ne_nil : w ≠ []
  solid : ∀ c ∈ w, isBlank c = false ∧ isBreak c = false
  first : ∀ c ∈ w.head?, c ≠ '#'
  last : ∀ c ∈ w.getLast?, c ≠ ':'

theorem IsWord.head?_append {w : List Char} (hw : IsWord w) (rest : List Char) :
    ∀ c ∈ (w ++ rest).head?, isBlank c = false ∧ isBreak c = false := by
  intro c hc
  rw [List.head?_append_of_ne_nil _ hw.ne_nil] at hc
  exact hw.solid c (List.mem_of_head? hc)

section Words

variable {w : List Char} (hw : IsWord w) {indent : Int} {m : Mark} {b : Bool} (n : Nat)
  (text : List Char) (gap : Fold)

include hw

theorem words_word {y : Char} {rest : List Char} (hrest : word false (y :: rest) = [])
    (hedge : (⟨w ++ y :: rest, m, b⟩ : Cursor).atDocumentEdge = false) :
    words false indent (n + 1) text gap ⟨w ++ y :: rest, m, b⟩ =
      if isBlank y || isBreak y then
        (Fold.read indent ((y :: rest).length + 1) {} ⟨y :: rest, m.along w.length, false⟩).bind
          fun (gap', c) =>
            if (c.mark.column : Int) < indent then some (⟨text ++ gap.text ++ w, c⟩, gap'.broken)
            else words false indent n (text ++ gap.text ++ w) gap' c
      else some (⟨text ++ gap.text ++ w, ⟨y :: rest, m.along w.length, false⟩⟩, false) := by
  have hword := word_append hw.solid hw.last hrest
  obtain ⟨x, w, rfl⟩ := List.exists_cons_of_ne_nil hw.ne_nil
  have hcomment : ((⟨x :: w ++ y :: rest, m, b⟩ : Cursor).next? == some '#') = false := by
    simpa [Cursor.next?] using hw.first x rfl
  have hblank : (x :: w).all isBlank = false := by simp [(hw.solid x List.mem_cons_self).1]
  rw [words, hedge, hcomment]
  simp only [Bool.or_self, Bool.false_eq_true, if_false, hword, Cursor.pass_append, hblank,
    Bool.and_false, Cursor.next?, List.head?_cons]
  split
  · cases Fold.read indent ((y :: rest).length + 1) {}
      ⟨y :: rest, m.along (x :: w).length, false⟩ with
    | none => rfl
    | some r => simp
  · rfl

/-- The last word of a line, when the next line is not indented enough to go on. -/
theorem words_line {k : Nat} (hk : (k : Int) < indent) {body : List Char} (hbody : Starts body)
    (hm : 0 < m.column) :
    ∃ m', m'.column = k ∧
      words false indent (n + 1) text gap ⟨w ++ '\n' :: (margin k ++ body), m, b⟩ =
        some (⟨text ++ gap.text ++ w, ⟨body, m', true⟩⟩, true) := by
  have hlen : k + 1 ≤ ('\n' :: (margin k ++ body)).length + 1 := by
    simp only [List.length_cons, List.length_append, margin, List.length_replicate]
    omega
  obtain ⟨m', hm', hfold⟩ := Fold.read_line (m := m.along w.length) (b := false) indent hlen
    fun x hx => ⟨(hbody x hx).notBlank, (hbody x hx).notBreak⟩
  refine ⟨m', hm', ?_⟩
  rw [words_word hw n text gap (word_of_gap (by decide)) (Cursor.atDocumentEdge_of_column hm),
    if_pos (by decide), hfold, Option.bind_some]
  dsimp only
  rw [hm', if_pos hk]

theorem words_spaces {j : Nat} {rest : List Char}
    (hrest : ∀ x ∈ rest.head?, isBlank x = false ∧ isBreak x = false) (hm : 0 < m.column)
    (hindent : indent ≤ m.column) :
    words false indent (n + 1) text gap ⟨w ++ (margin (j + 1) ++ rest), m, b⟩ =
      words false indent n (text ++ gap.text ++ w) { blanks := margin (j + 1) }
        ⟨rest, m.along (w.length + (j + 1)), false⟩ := by
  have hspace : margin (j + 1) ++ rest = ' ' :: (margin j ++ rest) := by
    rw [margin, List.replicate_succ]
    rfl
  have hfold := Fold.read_blanks (m := m.along w.length) (b := false) (k := j + 1)
    (n := (margin (j + 1) ++ rest).length + 1) indent (by simp [margin]; omega) hrest
  rw [hspace] at hfold ⊢
  rw [words_word hw n text gap (word_of_gap (by decide)) (Cursor.atDocumentEdge_of_column hm),
    if_pos (by decide), hfold, Option.bind_some]
  dsimp only
  rw [if_neg (by simp only [Mark.column_along]; omega), Mark.along_along]

end Words

/-- Words on one line with spaces between them. -/
inductive Spaced : List Char → Prop
  | word {w : List Char} (hw : IsWord w) : Spaced w
  | more {w rest : List Char} {j : Nat} (hw : IsWord w) (h : Spaced rest) :
    Spaced (w ++ (margin (j + 1) ++ rest))

theorem Spaced.head?_append {cs : List Char} (h : Spaced cs) (rest : List Char) :
    ∀ c ∈ (cs ++ rest).head?, isBlank c = false ∧ isBreak c = false := by
  cases h with
  | word hw => exact hw.head?_append rest
  | more hw h =>
    rw [List.append_assoc]
    exact hw.head?_append _

theorem words_spaced {indent : Int} {k : Nat} (hk : (k : Int) < indent) {body : List Char}
    (hbody : Starts body) {cs : List Char} (h : Spaced cs) {n : Nat} (hn : cs.length < n)
    (text : List Char) (gap : Fold) (m : Mark) (b : Bool) (hm : indent ≤ m.column) :
    ∃ m', m'.column = k ∧ words false indent n text gap ⟨cs ++ '\n' :: (margin k ++ body), m, b⟩ =
      some (⟨text ++ gap.text ++ cs, ⟨body, m', true⟩⟩, true) := by
  induction h generalizing n text gap m b with
  | word hw =>
    obtain ⟨n, rfl⟩ := Nat.exists_eq_add_one_of_ne_zero (Nat.ne_zero_of_lt hn)
    exact words_line hw n text gap hk hbody (by omega)
  | @more w rest j hw h ih =>
    obtain ⟨n, rfl⟩ := Nat.exists_eq_add_one_of_ne_zero (Nat.ne_zero_of_lt hn)
    have hlen : rest.length < n := by
      simp only [List.length_append, margin, List.length_replicate] at hn
      omega
    obtain ⟨m', hm', he⟩ := ih hlen (text ++ gap.text ++ w) { blanks := margin (j + 1) }
      (m.along (w.length + (j + 1))) false (by simp only [Mark.column_along]; omega)
    refine ⟨m', hm', ?_⟩
    rw [List.append_assoc, List.append_assoc,
      words_spaces hw n text gap (h.head?_append _) (by omega) hm, he]
    simp [Fold.text]

/-- What a plain text on one line looks like. -/
structure Bare (cs : List Char) : Prop where
  ne_nil : cs ≠ []
  onLine : ∀ c ∈ cs, isBreak c = false ∧ c ≠ '\t'
  first : ∀ c ∈ cs.head?, c ≠ ' ' ∧ c ≠ '#'
  last : ∀ c ∈ cs.getLast?, c ≠ ' ' ∧ c ≠ ':'
  afterColon : cs.IsChain fun a b => a = ':' → b ≠ ' '
  afterSpace : cs.IsChain fun a b => a = ' ' → b ≠ '#'

theorem Bare.of_gap {w gap rest : List Char} {j : Nat} (h : Bare (w ++ (gap ++ rest)))
    (hgap : gap = margin (j + 1)) (hrest : ∀ c ∈ rest.head?, (c == ' ') = false) : Bare rest := by
  have hlast : gap.getLast? = some ' ' := by
    rw [hgap, margin, List.getLast?_replicate, if_neg (Nat.succ_ne_zero j)]
  have hne : rest ≠ [] := by
    rintro rfl
    refine (h.last ' ' ?_).1 rfl
    rw [List.append_nil, List.getLast?_append, hlast]
    rfl
  have hspace := (List.isChain_append.mp (List.isChain_append.mp h.afterSpace).2.1).2.2 ' ' hlast
  exact
    { ne_nil := hne
      onLine := fun c hc =>
        h.onLine c (List.mem_append_right _ (List.mem_append_right _ hc))
      first := fun c hc => ⟨by simpa using hrest c hc, hspace c hc rfl⟩
      last := fun c hc => h.last c (by
        rw [List.getLast?_append, List.getLast?_append, show rest.getLast? = some c from hc]
        rfl)
      afterColon := (List.isChain_append.mp (List.isChain_append.mp h.afterColon).2.1).2.1
      afterSpace := (List.isChain_append.mp (List.isChain_append.mp h.afterSpace).2.1).2.1 }

theorem Bare.spaced {cs : List Char} (h : Bare cs) : Spaced cs := by
  induction hlen : cs.length using Nat.strongRecOn generalizing cs with
  | ind len ih =>
    obtain ⟨w, gap, rest, rfl, hw, hgap, hrest, hend⟩ := exists_word_gap (· == ' ') cs
    have hsolid : ∀ c ∈ w, isBlank c = false ∧ isBreak c = false := by
      intro c hc
      have hl := h.onLine c (List.mem_append_left _ hc)
      exact ⟨by simp [isBlank, hl.2, hw c hc], hl.1⟩
    have hne : w ≠ [] := by
      rintro rfl
      cases gap with
      | nil => exact h.ne_nil (hend rfl)
      | cons x gap => exact (h.first x rfl).1 (eq_of_beq (hgap x List.mem_cons_self))
    have hfirst : ∀ c ∈ w.head?, c ≠ '#' := by
      intro c hc
      refine (h.first c ?_).2
      rwa [List.head?_append_of_ne_nil _ hne]
    cases gap with
    | nil =>
      rw [hend rfl, List.append_nil, List.append_nil] at h ⊢
      exact .word ⟨hne, hsolid, hfirst, fun c hc => (h.last c hc).2⟩
    | cons x gap =>
      obtain rfl : x = ' ' := eq_of_beq (hgap x List.mem_cons_self)
      have hmargin : ' ' :: gap = margin (gap.length + 1) :=
        List.eq_replicate_iff.mpr ⟨rfl, fun c hc => by simpa using hgap c hc⟩
      have hlast : ∀ c ∈ w.getLast?, c ≠ ':' := fun c hc hcolon =>
        (List.isChain_append.mp h.afterColon).2.2 c hc ' ' rfl hcolon rfl
      have hspaced := ih rest.length (by
        rw [← hlen]
        simp only [List.length_append, List.length_cons]
        omega) (h.of_gap hmargin hrest) rfl
      rw [hmargin]
      exact .more ⟨hne, hsolid, hfirst, hlast⟩ hspaced

theorem read_bare {indent : Int} {k : Nat} (hk : (k : Int) ≤ indent) {body : List Char}
    (hbody : Starts body) {cs : List Char} (h : Bare cs) (m : Mark) (b : Bool)
    (hm : indent < m.column) :
    ∃ m', m'.column = k ∧ read false indent ⟨cs ++ '\n' :: (margin k ++ body), m, b⟩ =
      some (⟨cs, ⟨body, m', true⟩⟩, true) := by
  have hn : cs.length < (cs ++ '\n' :: (margin k ++ body)).length + 1 := by
    rw [List.length_append]
    omega
  have hk' : (k : Int) < indent + 1 := by omega
  obtain ⟨m', hm', he⟩ := words_spaced hk' hbody h.spaced hn [] {} m b (by omega)
  exact ⟨m', hm', by rw [read, he]; rfl⟩

def IsKey (key : List Char) : Prop := key ≠ [] ∧ ∀ c ∈ key, ('a' ≤ c ∧ c ≤ 'z') ∨ c = '_'

instance (key : List Char) : Decidable (IsKey key) :=
  @instDecidableAnd _ _ inferInstance (List.decidableBAll _ _)

theorem IsKey.letter {key : List Char} (h : IsKey key) {c : Char} (hc : c ∈ key) :
    isBlank c = false ∧ isBreak c = false ∧ c ∉ ":#-.?%[]\x7b\x7d,*&!|>\"@".toList ∧
      c ≠ Quoted.apostrophe ∧ c.toNat ≠ 0x60 := by
  have hall : ∀ n ∈ 95 :: List.range' 97 26,
      isBlank (Char.ofNat n) = false ∧ isBreak (Char.ofNat n) = false ∧
        Char.ofNat n ∉ ":#-.?%[]\x7b\x7d,*&!|>\"@".toList ∧
        Char.ofNat n ≠ Quoted.apostrophe ∧ (Char.ofNat n).toNat ≠ 0x60 := by decide
  have hn : c.toNat ∈ 95 :: List.range' 97 26 := by
    rw [List.mem_cons, List.mem_range'_1]
    rcases h.2 c hc with hl | rfl
    · rw [char_le_iff, char_le_iff] at hl
      change 97 ≤ c.toNat ∧ c.toNat ≤ 122 at hl
      omega
    · exact .inl rfl
  simpa only [Char.ofNat_toNat] using hall c.toNat hn

theorem read_key {key : List Char} (h : IsKey key) {x : Char} (hx : separates (some x) = true)
    (indent : Int) (rest : List Char) (m : Mark) (b : Bool) :
    read false indent ⟨key ++ ':' :: x :: rest, m, b⟩ =
      some (⟨key, ⟨':' :: x :: rest, m.along key.length, false⟩⟩, false) := by
  have hother {c d : Char} (hc : c ∈ key) (hd : d ∈ ":#-.?%[]\x7b\x7d,*&!|>\"@".toList) :
      c ≠ d := by
    rintro rfl
    exact (h.letter hc).2.2.1 hd
  have hkey : IsWord key := {
    ne_nil := h.1
    solid := fun c hc => ⟨(h.letter hc).1, (h.letter hc).2.1⟩
    first := fun c hc => hother (List.mem_of_head? hc) (by decide)
    last := fun c hc => hother (List.mem_of_getLast? hc) (by decide) }
  have hcolon : Plain.word false (':' :: x :: rest) = [] := by
    have hsolid : isBlank ':' = false ∧ isBreak ':' = false := by decide
    simp [word, hsolid, hx]
  have hedge : (⟨key ++ ':' :: x :: rest, m, b⟩ : Cursor).atDocumentEdge = false := by
    apply Cursor.atDocumentEdge_of_next
    intro c hc
    rw [Cursor.next?, List.head?_append_of_ne_nil _ h.1] at hc
    have hmem := List.mem_of_head? hc
    exact ⟨hother hmem (by decide), hother hmem (by decide)⟩
  rw [read, words_word hkey _ _ _ hcolon hedge, if_neg (by decide)]
  rfl

end FlowPack.Yaml.Plain
