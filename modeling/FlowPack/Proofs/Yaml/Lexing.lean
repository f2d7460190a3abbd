import FlowPack.Proofs.Yaml.Blocks
import FlowPack.Proofs.Yaml.Plain

namespace FlowPack.Yaml

open Printer (margin)

namespace Cursor

def Uncommented (c : Cursor) : Prop :=
  c.afterBreak = true ∨ (c.rest.dropWhile isBlank).head? ≠ some '#'

theorem skipLineComment_eq {c : Cursor} (h : c.Uncommented) : c.skipLineComment = c := by
  have hdrop : c.rest.drop (c.rest.takeWhile isBlank).length = c.rest.dropWhile isBlank :=
    calc c.rest.drop (c.rest.takeWhile isBlank).length
        = (c.rest.takeWhile isBlank ++ c.rest.dropWhile isBlank).drop
            (c.rest.takeWhile isBlank).length := by rw [List.takeWhile_append_dropWhile]
      _ = c.rest.dropWhile isBlank := List.drop_left
  rw [skipLineComment]
  rcases h with h | h
  · rw [if_pos h]
  · simp [span, pass, next?, hdrop, h]

end Cursor

namespace Lexer

/-- The lexer gets from one state to another. Each step takes at least one character. -/
def Reads (l l' : Lexer) : Prop :=
  ∃ k, k + l'.cursor.rest.length ≤ l.cursor.rest.length ∧ ∀ n, run (n + k) l = run n l'

theorem Reads.refl (l : Lexer) : Reads l l := ⟨0, by simp, fun _ => rfl⟩

theorem Reads.trans {l₁ l₂ l₃ : Lexer} (h₁ : Reads l₁ l₂) (h₂ : Reads l₂ l₃) : Reads l₁ l₃ := by
  obtain ⟨j, hj, h₁⟩ := h₁
  obtain ⟨k, hk, h₂⟩ := h₂
  refine ⟨k + j, by omega, fun n => ?_⟩
  rw [← Nat.add_assoc, h₁, h₂]

theorem Reads.of_step {l l' : Lexer} (h : l.step? = some (l', false))
    (hlt : l'.cursor.rest.length < l.cursor.rest.length) : Reads l l' :=
  ⟨1, by omega, fun n => by rw [run, h]⟩

/-- The columns of the open blocks, innermost first, and the tokens read so far, oldest first. -/
structure Holds (l : Lexer) (cols : List Nat) (kinds : List TokenKind) : Prop where
  outer : l.outer = []
  indents : l.indent :: l.indents = cols.map Int.ofNat ++ [-1]
  kinds : l.tokens.reverse.map (·.kind) = kinds

def staying (column : Int) (cols : List Nat) : List Nat :=
  cols.dropWhile fun c : Nat => decide (column < (c : Int))

def closing (column : Int) (cols : List Nat) : List TokenKind :=
  List.replicate (cols.takeWhile fun c : Nat => decide (column < (c : Int))).length .blockEnd

theorem closeBlocks_spec (column : Int) (line : Nat) {indent : Int}
    {indents : List Int} {cols : List Nat} (h : indent :: indents = cols.map Int.ofNat ++ [-1])
    (tokens : List Token) :
    ∃ indent' indents' tokens',
      closeBlocks column line indent indents tokens = (indent', indents', tokens') ∧
        indent' :: indents' = (staying column cols).map Int.ofNat ++ [-1] ∧
        tokens'.reverse.map (·.kind) =
          tokens.reverse.map (·.kind) ++ closing column cols := by
  induction cols generalizing indent indents tokens with
  | nil =>
    obtain ⟨rfl, rfl⟩ := List.cons.inj h
    exact ⟨_, _, _, rfl, rfl, by simp [closing]⟩
  | cons c cols ih =>
    obtain ⟨rfl, htail⟩ : indent = (c : Int) ∧ _ := List.cons.inj h
    obtain ⟨up, more, hup⟩ : ∃ up more, cols.map Int.ofNat ++ [-1] = up :: more := by
      cases cols with
      | nil => exact ⟨_, _, rfl⟩
      | cons d cols => exact ⟨_, _, rfl⟩
    obtain rfl : indents = up :: more := htail.trans hup
    by_cases hc : column < (c : Int)
    · obtain ⟨indent', indents', tokens', he, hi, ht⟩ := ih hup.symm (⟨.blockEnd, line⟩ :: tokens)
      refine ⟨indent', indents', tokens', ?_, ?_, ?_⟩
      · rw [closeBlocks, if_pos hc, he]
      · rw [hi, staying, staying, List.dropWhile_cons_of_pos (by simpa using hc)]
      · rw [ht, closing, closing, List.takeWhile_cons_of_pos (by simpa using hc)]
        simp [List.replicate_succ]
    · refine ⟨_, _, _, by rw [closeBlocks, if_neg hc], ?_, ?_⟩
      · rw [staying, List.dropWhile_cons_of_neg (by simpa using hc)]
        exact h
      · rw [closing, List.takeWhile_cons_of_neg (by simpa using hc)]
        simp

theorem Holds.unroll {l : Lexer} {cols : List Nat} {kinds : List TokenKind}
    (h : l.Holds cols kinds) (column : Int) :
    (l.unroll column).Holds (staying column cols) (kinds ++ closing column cols) ∧
      (l.unroll column).cursor = l.cursor ∧ (l.unroll column).keyAllowed = l.keyAllowed ∧
      (l.unroll column).key = l.key := by
  obtain ⟨indent', indents', tokens', he, hi, ht⟩ :=
    closeBlocks_spec column l.cursor.mark.line h.indents l.tokens
  have hflow : l.inFlow = false := by simp [inFlow, h.outer]
  have heq : l.unroll column =
      { l with indent := indent', indents := indents', tokens := tokens' } := by
    rw [Lexer.unroll, hflow]
    simp only [Bool.false_eq_true, if_false, he]
  rw [heq]
  exact ⟨⟨h.outer, hi, by rw [ht, h.kinds]⟩, rfl, rfl, rfl⟩

theorem staying_of_le {column : Int} {cols : List Nat} (h : ∀ c ∈ cols.head?, (c : Int) ≤ column) :
    staying column cols = cols ∧ closing column cols = [] := by
  cases cols with
  | nil => exact ⟨rfl, rfl⟩
  | cons c cols =>
    have := h c rfl
    constructor
    · rw [staying, List.dropWhile_cons_of_neg (by simpa using this)]
    · rw [closing, List.takeWhile_cons_of_neg (by simpa using this)]
      rfl

/-- The next token begins at a cursor, up to the ends of the blocks that its column closes. -/
structure Reaches (l : Lexer) (cols : List Nat) (kinds : List TokenKind) (keyAllowed : Bool)
    (c : Cursor) : Prop where
  length_le : c.rest.length ≤ l.cursor.rest.length
  gap : Cursor.skipGap false (l.cursor.rest.length + 1) l.keyAllowed l.cursor = (keyAllowed, c)
  blocks : ∃ cols₀ kinds₀, l.Holds cols₀ kinds₀ ∧
    staying c.mark.column cols₀ = staying c.mark.column cols ∧
    kinds₀ ++ closing c.mark.column cols₀ = kinds ++ closing c.mark.column cols

variable {l : Lexer} {cols : List Nat} {kinds : List TokenKind} {ka : Bool}

theorem Holds.reaches {body : List Char} {m : Mark} {b : Bool} {k : Nat} (h : l.Holds cols kinds)
    (hc : l.cursor = ⟨margin k ++ body, m, b⟩) (hbody : Starts body) :
    l.Reaches cols kinds l.keyAllowed ⟨body, m.along k, b⟩ := by
  refine ⟨by simp [hc], ?_, cols, kinds, h, rfl, rfl⟩
  rw [hc, Cursor.skipGap_margin hbody]

theorem Holds.reaches_line {body : List Char} {m : Mark} {b : Bool} {k : Nat}
    (h : l.Holds cols kinds) (hc : l.cursor = ⟨'\n' :: (margin k ++ body), m, b⟩)
    (hbody : Starts body) : l.Reaches cols kinds true ⟨body, (m.below 1).along k, true⟩ := by
  refine ⟨by simp [hc]; omega, ?_, cols, kinds, h, rfl, rfl⟩
  rw [hc, List.length_cons, Cursor.skipGap_line hbody]

theorem Reaches.close {c : Cursor} {col : Nat} (h : l.Reaches (col :: cols) kinds ka c)
    (hcol : c.mark.column < col) : l.Reaches cols (kinds ++ [.blockEnd]) ka c := by
  obtain ⟨cols₀, kinds₀, hholds, hcols, hkinds⟩ := h.blocks
  refine ⟨h.length_le, h.gap, cols₀, kinds₀, hholds, ?_, ?_⟩
  · rw [hcols, staying, List.dropWhile_cons_of_pos (by simpa using hcol)]
    rfl
  · rw [hkinds, closing, List.takeWhile_cons_of_pos (by simpa using hcol), List.length_cons,
      List.replicate_succ, List.append_assoc]
    rfl

theorem finishLine_eq (h : l.cursor.Uncommented) : l.finishLine = l := by
  unfold finishLine
  split
  · rfl
  · rw [Cursor.skipLineComment_eq h]

theorem step?_of_gap {c : Cursor}
    (hgap : Cursor.skipGap l.inFlow (l.cursor.rest.length + 1) l.keyAllowed l.cursor = (ka, c))
    {x : Char} {rest : List Char} (hc : c.rest = x :: rest)
    (hx : c.mark.column = 0 → x ≠ '%' ∧ x ≠ '-' ∧ x ≠ '.') :
    l.step? = ((Lexer.unroll { l with keyAllowed := ka, cursor := c } c.mark.column).token? x).map
      fun l => (l.finishLine, false) := by
  have hedge : c.atDocumentEdge = false := by
    by_cases h0 : c.mark.column = 0
    · apply Cursor.atDocumentEdge_of_next
      rintro d hd
      obtain rfl : x = d := by simpa [Cursor.next?, hc] using hd
      exact ⟨(hx h0).2.1, (hx h0).2.2⟩
    · exact Cursor.atDocumentEdge_of_column (Nat.pos_of_ne_zero h0)
  have hpercent : (c.mark.column == 0 && x == '%') = false := by
    by_cases h0 : c.mark.column = 0
    · simp [(hx h0).1]
    · simp [h0]
  rw [Cursor.atDocumentEdge, Bool.or_eq_false_iff] at hedge
  rw [step?, hgap]
  simp only [hc, hpercent, hedge.1, hedge.2, Bool.false_eq_true, if_false]

/-- The next token is read after the blocks are closed. -/
theorem Reaches.token {c : Cursor} {x : Char} {rest : List Char} (h : l.Reaches cols kinds ka c)
    (hc : c.rest = x :: rest) (hcols : ∀ d ∈ cols.head?, d ≤ c.mark.column)
    (hx : c.mark.column = 0 → x ≠ '%' ∧ x ≠ '-' ∧ x ≠ '.') :
    ∃ l₁ : Lexer, l₁.Holds cols kinds ∧ l₁.cursor = c ∧ l₁.keyAllowed = ka ∧ l₁.key = l.key ∧
      ∀ l₂, l₁.token? x = some l₂ → l₂.cursor.Uncommented →
        l₂.cursor.rest.length ≤ rest.length → Reads l l₂ := by
  obtain ⟨cols₀, kinds₀, hholds, hstay, hclose⟩ := h.blocks
  have hstays : staying c.mark.column cols = cols ∧ closing c.mark.column cols = [] :=
    staying_of_le fun d hd => by exact_mod_cast hcols d hd
  rw [hstays.1] at hstay
  rw [hstays.2, List.append_nil] at hclose
  let l₀ : Lexer := { l with keyAllowed := ka, cursor := c }
  have hl₀ : l₀.Holds cols₀ kinds₀ := ⟨hholds.outer, hholds.indents, hholds.kinds⟩
  obtain ⟨hl₁, hcursor, hka, hkey⟩ := hl₀.unroll c.mark.column
  rw [hstay, hclose] at hl₁
  refine ⟨l₀.unroll c.mark.column, hl₁, hcursor, hka, hkey, fun l₂ htoken hline hlen => ?_⟩
  have hstep : l.step? = some (l₂, false) := by
    have hflow : l.inFlow = false := by simp [inFlow, hholds.outer]
    have hgap := h.gap
    rw [← hflow] at hgap
    rw [step?_of_gap hgap hc hx, show Lexer.unroll _ _ = l₀.unroll c.mark.column from rfl, htoken,
      Option.map_some, finishLine_eq hline]
  refine Reads.of_step hstep ?_
  have := h.length_le
  rw [hc, List.length_cons] at this
  omega

/-- A column is that of the innermost block, or a new block opens there. -/
inductive Opens (kind : TokenKind) (w : Nat) : List Nat → List TokenKind → List Nat → Prop
  | same {cols : List Nat} (h : cols.head? = some w) : Opens kind w cols [] cols
  | deeper {cols : List Nat} (h : ∀ c ∈ cols.head?, c < w) : Opens kind w cols [kind] (w :: cols)

theorem Opens.head?_le {kind : TokenKind} {w : Nat} {cols cols' : List Nat}
    {opening : List TokenKind} (h : Opens kind w cols opening cols') :
    ∀ c ∈ cols.head?, c ≤ w := by
  cases h with
  | same h =>
    intro c hc
    rw [h] at hc
    exact (Option.some.inj hc).ge
  | deeper h => exact fun c hc => (h c hc).le

theorem Opens.head? {kind : TokenKind} {w : Nat} {cols cols' : List Nat}
    {opening : List TokenKind} (h : Opens kind w cols opening cols') : cols'.head? = some w := by
  cases h with
  | same h => exact h
  | deeper h => rfl

theorem Holds.indent_eq (h : l.Holds cols kinds) :
    l.indent = (cols.head?.map Int.ofNat).getD (-1) := by
  have := congrArg List.head? h.indents
  cases cols with
  | nil => simpa using this
  | cons c cols => simpa using this

theorem insertIdx_length_append {α : Type} (front back : List α) (x : α) :
    (front ++ back).insertIdx front.length x = front ++ x :: back := by
  induction front with
  | nil => exact List.insertIdx_zero
  | cons y front ih => simpa using ih

theorem Holds.insert {front back : List TokenKind} (h : l.Holds cols (front ++ back))
    (kind : TokenKind) (line : Nat) :
    (l.insert front.length kind line).Holds cols (front ++ kind :: back) := by
  refine ⟨h.outer, h.indents, ?_⟩
  obtain ⟨older, newer, he, rfl, rfl⟩ := List.map_eq_append_iff.mp h.kinds
  have htokens : l.tokens = newer.reverse ++ older.reverse := by
    rw [← List.reverse_append, ← he, List.reverse_reverse]
  have hplace : l.tokens.length - (older.map (·.kind)).length = newer.reverse.length := by
    simp [htokens]
  have hinsert : (l.insert (older.map (·.kind)).length kind line).tokens =
      newer.reverse ++ ⟨kind, line⟩ :: older.reverse := by
    rw [Lexer.insert, hplace, htokens, insertIdx_length_append]
  rw [hinsert]
  simp

theorem Holds.roll {front back opening : List TokenKind} {cols' : List Nat} {kind : TokenKind}
    (h : l.Holds cols (front ++ back)) {mark : Mark}
    (ho : Opens kind mark.column cols opening cols') :
    (l.roll mark front.length kind).Holds cols' (front ++ (opening ++ back)) := by
  have hflow : l.inFlow = false := by simp [inFlow, h.outer]
  have hindent := h.indent_eq
  cases ho with
  | same hhead =>
    have hle : ¬ l.indent < mark.column := by simp [hindent, hhead]
    rw [Lexer.roll, hflow]
    simpa [hle] using h
  | deeper hhead =>
    have hlt : l.indent < mark.column := by
      cases hc : cols.head? with
      | none => simp [hindent, hc]; omega
      | some c => 
        have := hhead c hc
        simp [hindent, hc]
        omega
    rw [Lexer.roll, hflow]
    simp only [Bool.not_false, Bool.true_and, hlt, decide_true, if_true]
    have hi := h.insert kind mark.line
    exact ⟨hi.outer, by rw [List.map_cons, List.cons_append, ← h.indents]; rfl, hi.kinds⟩

def marks : List Char := "[]\x7b\x7d,*&!|>\"".toList ++ [Quoted.apostrophe]

theorem not_mem_marks_of_beginsPlain {x : Char} {next : Option Char}
    (h : beginsPlain false x next = true) : x ∉ marks := by
  intro hx
  have hall : (marks.all fun d => !isBlank d && !(d == '-') && !(d == '?') && !(d == ':') &&
      (",[]\x7b\x7d#&*!|>\"%@".toList.contains d || d == Quoted.apostrophe || d.toNat == 0x60)) =
        true := by decide
  have hmark := List.all_eq_true.mp hall x hx
  simp only [Bool.and_eq_true, Bool.not_eq_true'] at hmark
  obtain ⟨⟨⟨⟨hblank, hminus⟩, hquestion⟩, hcolon⟩, hin⟩ := hmark
  rw [beginsPlain, hblank, hminus, hquestion, hcolon, hin] at h
  cases h

theorem token?_plain {x : Char} (houter : l.outer = [])
    (h : beginsPlain false x l.cursor.second? = true)
    (hdash : x = '-' → separates l.cursor.second? = false) : l.token? x = l.plainScalar? := by
  have hflow : l.inFlow = false := by simp [inFlow, houter]
  have hne {d : Char} (hd : d ∈ marks) : (x == d) = false := by
    rw [beq_eq_false_iff_ne]
    rintro rfl
    exact not_mem_marks_of_beginsPlain h hd
  have hminus : (x == '-' && separates l.cursor.second?) = false := by
    by_cases hx : x = '-'
    · rw [hdash hx, Bool.and_false]
    · simp [hx]
  have hquestion : (x == '?' && separates l.cursor.second?) = false := by
    by_cases hx : x = '?'
    · subst hx
      simpa [beginsPlain, isBlank] using h
    · simp [hx]
  have hcolon : (x == ':' && separates l.cursor.second?) = false := by
    by_cases hx : x = ':'
    · subst hx
      simpa [beginsPlain, isBlank] using h
    · simp [hx]
  rw [token?]
  simp only [hne (d := '[') (by decide), hne (d := '\x7b') (by decide), hne (d := ']') (by decide),
    hne (d := '\x7d') (by decide), hne (d := ',') (by decide), hne (d := '*') (by decide),
    hne (d := '&') (by decide), hne (d := '!') (by decide), hne (d := '|') (by decide),
    hne (d := '>') (by decide), hne (d := '"') (by decide),
    hne (d := Quoted.apostrophe) (by decide), hflow, hminus, hquestion, hcolon, h,
    Bool.false_eq_true, Bool.false_or, Bool.false_and, if_false, if_true]

theorem token?_colon (houter : l.outer = []) (h : separates l.cursor.second? = true) :
    l.token? ':' = l.value? := by
  have hflow : l.inFlow = false := by simp [inFlow, houter]
  simp [token?, h, hflow]

/-- No key has to stand where the lexer saw one begin. -/
def Free (l : Lexer) : Prop := ∀ k ∈ l.key, k.required = false

theorem dropKey?_of_free (h : l.Free) : l.dropKey? = some { l with key := none } := by
  obtain ⟨cursor, tokens, indent, indents, keyAllowed, key, outer⟩ := l
  cases key with
  | none => rfl
  | some k => simp [dropKey?, h k rfl]

def keyHere (l : Lexer) : PossibleKey :=
  ⟨!l.inFlow && l.indent == l.cursor.mark.column, l.tokens.length, l.cursor.mark⟩

theorem saveKey?_of_free (h : l.Free) :
    l.saveKey? = some { l with key := if l.keyAllowed then some l.keyHere else l.key } := by
  rw [saveKey?]
  cases hka : l.keyAllowed with
  | false => rw [if_neg Bool.false_ne_true, if_neg Bool.false_ne_true, ← hka]
  | true => rw [if_pos rfl, if_pos rfl, dropKey?_of_free h, ← hka]; rfl

def afterScalar (l : Lexer) (isPlain : Bool) (r : ScalarRead) (keyAllowed : Bool) : Lexer :=
  { l.push (.scalar isPlain r.text) l.cursor.mark.line with
    key := if l.keyAllowed then some l.keyHere else l.key, cursor := r.cursor, keyAllowed }

theorem plainScalar?_of_read (h : l.Free) {r : ScalarRead} {ended : Bool}
    (hread : Plain.read l.inFlow l.indent l.cursor = some (r, ended)) :
    l.plainScalar? = some (l.afterScalar true r ended) := by
  rw [plainScalar?, saveKey?_of_free h]
  show (Plain.read l.inFlow l.indent l.cursor).bind _ = _
  rw [hread]
  rfl

theorem quotedScalar?_of_read (h : l.Free) {quote : Char} {r : ScalarRead}
    (hread : Quoted.read quote l.cursor = some r) :
    l.quotedScalar? quote = some (l.afterScalar false r false) := by
  rw [quotedScalar?, saveKey?_of_free h]
  show (Quoted.read quote l.cursor).bind _ = _
  rw [hread]
  rfl

theorem Holds.push (h : l.Holds cols kinds) (kind : TokenKind) (line : Nat) :
    (l.push kind line).Holds cols (kinds ++ [kind]) :=
  ⟨h.outer, h.indents, by simp [Lexer.push, ← h.kinds]⟩

theorem Holds.afterScalar (h : l.Holds cols kinds) (isPlain : Bool) (r : ScalarRead)
    (keyAllowed : Bool) :
    (l.afterScalar isPlain r keyAllowed).Holds cols (kinds ++ [.scalar isPlain r.text]) :=
  ⟨h.outer, h.indents, (h.push (.scalar isPlain r.text) l.cursor.mark.line).kinds⟩

theorem Holds.indicator (h : l.Holds cols kinds) (n : Nat) (kind : TokenKind) (keyAllowed : Bool) :
    (l.indicator n kind keyAllowed).Holds cols (kinds ++ [kind]) :=
  ⟨h.outer, h.indents, (h.push kind l.cursor.mark.line).kinds⟩

theorem Holds.length_tokens (h : l.Holds cols kinds) : l.tokens.length = kinds.length := by
  simp [← h.kinds]

@[simp] theorem cursor_roll (l : Lexer) (mark : Mark) (position : Nat) (kind : TokenKind) :
    (l.roll mark position kind).cursor = l.cursor := by
  unfold roll
  split <;> rfl

@[simp] theorem key_roll (l : Lexer) (mark : Mark) (position : Nat) (kind : TokenKind) :
    (l.roll mark position kind).key = l.key := by
  unfold roll
  split <;> rfl

theorem beginsPlain_of_isKey {key : List Char} (h : Plain.IsKey key) {c : Char} (hc : c ∈ key)
    (next : Option Char) : beginsPlain false c next = true := by
  obtain ⟨hblank, -, hother, hquote, htick⟩ := h.letter hc
  have hne {d : Char} (hd : d ∈ ":#-.?%[]\x7b\x7d,*&!|>\"@".toList) : c ≠ d := by
    rintro rfl
    exact hother hd
  have hcontains : ",[]\x7b\x7d#&*!|>\"%@".toList.contains c = false := by
    have hall : (",[]\x7b\x7d#&*!|>\"%@".toList.all fun d =>
        ":#-.?%[]\x7b\x7d,*&!|>\"@".toList.contains d) = true := by decide
    rw [List.contains_eq_mem, decide_eq_false_iff_not]
    exact fun hin => hother (List.contains_iff_mem.mp (List.all_eq_true.mp hall c hin))
  rw [beginsPlain, hblank, hcontains]
  simp [hne (d := '-') (by decide), hne (d := '?') (by decide), hne (d := ':') (by decide),
    hquote, htick]

/-- The lexer comes to a text at a column, and no key is awaited. -/
def Before (l : Lexer) (cols : List Nat) (kinds : List TokenKind) (keyAllowed : Bool) (k : Nat)
    (body : List Char) : Prop :=
  l.Free ∧ ∃ m b, m.column = k ∧ l.Reaches cols kinds keyAllowed ⟨body, m, b⟩

theorem Before.close {k col : Nat} {body : List Char} (h : l.Before (col :: cols) kinds ka k body)
    (hk : k < col) : l.Before cols (kinds ++ [.blockEnd]) ka k body := by
  obtain ⟨hfree, m, b, rfl, hreach⟩ := h
  exact ⟨hfree, m, b, rfl, hreach.close hk⟩

theorem Before.keyText {w : Nat} {key : List Char} {x : Char} {rest : List Char}
    (h : l.Before cols kinds true w (key ++ ':' :: x :: rest)) (hcols : ∀ c ∈ cols.head?, c ≤ w)
    (hkey : Plain.IsKey key) (hx : separates (some x) = true) :
    ∃ (l' : Lexer) (k : PossibleKey), Reads l l' ∧ l'.Holds cols (kinds ++ [.scalar true key]) ∧
      l'.key = some k ∧ k.position = kinds.length ∧ k.mark.column = w ∧
      l'.cursor = ⟨':' :: x :: rest, k.mark.along key.length, false⟩ := by
  obtain ⟨hfree, m, b, rfl, hreach⟩ := h
  obtain ⟨c, key', hc⟩ := List.exists_cons_of_ne_nil hkey.1
  have hmem : c ∈ key := by rw [hc]; exact List.mem_cons_self
  have hletter := (hkey.letter hmem).2.2.1
  have hrest : key ++ ':' :: x :: rest = c :: (key' ++ ':' :: x :: rest) := by rw [hc]; rfl
  obtain ⟨l₁, hl₁, hcursor, hka, hkey₁, hreads⟩ := hreach.token hrest hcols fun _ => by
    refine ⟨?_, ?_, ?_⟩ <;> rintro rfl <;> exact hletter (by decide)
  have hread : Plain.read l₁.inFlow l₁.indent l₁.cursor =
      some (⟨key, ⟨':' :: x :: rest, m.along key.length, false⟩⟩, false) := by
    rw [inFlow, hl₁.outer, hcursor]
    exact Plain.read_key hkey hx l₁.indent rest m b
  have htoken := plainScalar?_of_read (by rwa [Free, hkey₁]) hread
  rw [← token?_plain hl₁.outer (beginsPlain_of_isKey hkey hmem _)
    (by rintro rfl; exact absurd (by decide) hletter)] at htoken
  have hmark : l₁.keyHere.mark = m := by rw [keyHere, hcursor]
  refine ⟨_, l₁.keyHere, hreads _ htoken (.inr ?_) ?_, hl₁.afterScalar .., ?_, hl₁.length_tokens,
    by rw [hmark], by rw [hmark]; rfl⟩
  · simp [afterScalar, isBlank]
  · simp [afterScalar]
  · rw [afterScalar, hka]
    rfl

theorem Holds.value?_of_key {front back opening : List TokenKind} {cols' : List Nat}
    {k : PossibleKey} (h : l.Holds cols (front ++ back)) (hlive : l.liveKey? = some (some k))
    (hposition : k.position = front.length)
    (ho : Opens .blockMapping k.mark.column cols opening cols') :
    ∃ l' : Lexer, l.value? = some l' ∧ l'.key = none ∧
      l'.Holds cols' (front ++ (opening ++ .key :: back) ++ [.value]) ∧ l'.keyAllowed = false ∧
      l'.cursor = l.cursor.skip 1 := by
  let l₁ : Lexer :=
    { (l.insert front.length .key k.mark.line).roll k.mark front.length .blockMapping with
      key := none }
  have hl₁ : l₁.Holds cols' (front ++ (opening ++ .key :: back)) := by
    have := (h.insert .key k.mark.line).roll ho
    exact ⟨this.outer, this.indents, this.kinds⟩
  have hcursor : l₁.cursor = l.cursor := cursor_roll ..
  refine ⟨l₁.indicator 1 .value false, ?_, rfl, hl₁.indicator .., rfl,
    by rw [Lexer.indicator, hcursor]⟩
  rw [value?, hlive]
  simp only [hposition]
  rfl

/-- A key and its colon. -/
theorem Before.key {w : Nat} {key : List Char} {x : Char} {rest : List Char}
    {opening : List TokenKind} {cols' : List Nat}
    (h : l.Before cols kinds true w (key ++ ':' :: x :: rest))
    (ho : Opens .blockMapping w cols opening cols') (hkey : Plain.IsKey key)
    (hlen : key.length ≤ keyReach) (hx : separates (some x) = true)
    (hline : ((x :: rest).dropWhile isBlank).head? ≠ some '#') :
    ∃ (l' : Lexer) (m : Mark), Reads l l' ∧ l'.Free ∧
      l'.Holds cols' (kinds ++ (opening ++ [.key, .scalar true key, .value])) ∧
      l'.keyAllowed = false ∧ l'.cursor = ⟨x :: rest, m, false⟩ ∧ w < m.column := by
  obtain ⟨l₁, k, hreads₁, hl₁, hkey₁, hposition, rfl, hcursor₁⟩ :=
    h.keyText ho.head?_le hkey hx
  have hcolon : Starts (':' :: x :: rest) := by
    intro y hy
    obtain rfl : ':' = y := by simpa using hy
    exact ⟨by decide, by decide, by decide, by decide⟩
  have hpos : 0 < key.length := List.length_pos_of_ne_nil hkey.1
  obtain ⟨l₂, hl₂, hcursor₂, -, hkey₂, hreads₂⟩ :=
    (hl₁.reaches (k := 0) hcursor₁ hcolon).token rfl
      (fun d hd => (ho.head?_le d hd).trans (by simp)) (fun h0 => by
        simp only [Mark.column_along] at h0
        omega)
  -- The key is on this line and not too far away.
  have hlive : l₂.liveKey? = some (some k) := by
    have hnear : ¬ (k.mark.line < k.mark.line ∨
        k.mark.index + keyReach < k.mark.index + key.length) := by omega
    rw [liveKey?, hkey₂, hkey₁]
    simpa [hcursor₂] using hnear
  obtain ⟨l₃, hvalue, hkey₃, hl₃, hka₃, hcursor₃⟩ := hl₂.value?_of_key hlive hposition ho
  rw [← token?_colon hl₂.outer (by rw [hcursor₂]; exact hx)] at hvalue
  replace hcursor₃ : l₃.cursor = ⟨x :: rest, k.mark.along (key.length + 1), false⟩ := by
    rw [hcursor₃, hcursor₂, Cursor.skip_one]
    simp [Mark.along_along]
  refine ⟨l₃, _, hreads₁.trans (hreads₂ l₃ hvalue ?_ ?_), ?_, ?_, hka₃, hcursor₃, ?_⟩
  · rw [hcursor₃]
    exact .inr hline
  · rw [hcursor₃]
  · intro k hk
    rw [hkey₃] at hk
    cases hk
  · simpa using hl₃
  · simp only [Mark.column_along]
    omega

end Lexer

end FlowPack.Yaml
