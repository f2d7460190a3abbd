import FlowPack.Proofs.Yaml.Lexing

namespace FlowPack.Yaml.Lexer

open Printer (margin)

variable {l : Lexer} {cols : List Nat} {kinds : List TokenKind} {ka : Bool} {j k w : Nat}
  {body : List Char}

theorem not_comment_of_starts (hbody : Starts body) (k : Nat) :
    ((margin k ++ body).dropWhile isBlank).head? ≠ some '#' := by
  have hmargin : ∀ x ∈ margin k, isBlank x = true := fun x hx => by
    rw [List.eq_of_mem_replicate hx]
    decide
  rw [List.dropWhile_append_of_pos hmargin]
  intro hc
  cases body with
  | nil => cases hc
  | cons x body =>
    have hx := hbody x rfl
    rw [List.dropWhile_cons_of_neg (by simp [hx.notBlank])] at hc
    exact hx.notComment (Option.some.inj hc)

theorem not_comment_of_break (rest : List Char) :
    (('\n' :: rest).dropWhile isBlank).head? ≠ some '#' := by
  rw [List.dropWhile_cons_of_neg (by decide)]
  simp

theorem Before.key_value {key value opening : List _} {cols' : List Nat}
    (h : l.Before cols kinds true w (key ++ ':' :: ' ' :: value))
    (ho : Opens .blockMapping w cols opening cols') (hkey : Plain.IsKey key)
    (hlen : key.length ≤ keyReach) (hvalue : Starts value) :
    ∃ (l' : Lexer) (j : Nat), Reads l l' ∧ w < j ∧
      l'.Before cols' (kinds ++ (opening ++ [.key, .scalar true key, .value])) false j value := by
  obtain ⟨l', m, hreads, hfree, hholds, hka, hcursor, hm⟩ := h.key ho hkey hlen (by decide)
    (not_comment_of_starts hvalue 1)
  refine ⟨l', m.column + 1, hreads, by omega, hfree, m.along 1, false, rfl, ?_⟩
  have := hholds.reaches (k := 1) hcursor hvalue
  rwa [hka] at this

theorem Before.key_line {key opening : List _} {cols' : List Nat}
    (h : l.Before cols kinds true w (key ++ ':' :: '\n' :: (margin k ++ body)))
    (ho : Opens .blockMapping w cols opening cols') (hkey : Plain.IsKey key)
    (hlen : key.length ≤ keyReach) (hbody : Starts body) :
    ∃ l' : Lexer, Reads l l' ∧
      l'.Before cols' (kinds ++ (opening ++ [.key, .scalar true key, .value])) true k body := by
  obtain ⟨l', m, hreads, hfree, hholds, -, hcursor, -⟩ := h.key ho hkey hlen (by decide)
    (not_comment_of_break _)
  refine ⟨l', hreads, hfree, (m.below 1).along k, true, ?_, hholds.reaches_line hcursor hbody⟩
  simp [Mark.below]

theorem Holds.indent_of_head (h : l.Holds cols kinds) (hw : cols.head? = some w) :
    l.indent = w := by
  rw [h.indent_eq, hw]
  rfl

theorem free_afterScalar (h : l.Holds cols kinds) (hw : cols.head? = some w)
    (hj : w < l.cursor.mark.column) (hfree : l.Free) (isPlain : Bool) (r : ScalarRead)
    (keyAllowed : Bool) : (l.afterScalar isPlain r keyAllowed).Free := by
  intro key hkey
  have hne : (l.indent == (l.cursor.mark.column : Int)) = false := by
    rw [h.indent_of_head hw, beq_eq_false_iff_ne]
    omega
  cases hka : l.keyAllowed with
  | false =>
    rw [afterScalar, hka] at hkey
    exact hfree key hkey
  | true =>
    rw [afterScalar, hka] at hkey
    obtain rfl : l.keyHere = key := Option.some.inj hkey
    rw [keyHere, hne, Bool.and_false]

theorem Before.value {x : Char} {rest : List Char} (h : l.Before cols kinds ka j (x :: rest))
    (hw : cols.head? = some w) (hj : w < j) :
    ∃ (l₁ : Lexer) (m : Mark) (b : Bool), l₁.Holds cols kinds ∧ l₁.cursor = ⟨x :: rest, m, b⟩ ∧
      m.column = j ∧ l₁.keyAllowed = ka ∧ l₁.Free ∧
      ∀ l₂, l₁.token? x = some l₂ → l₂.cursor.Uncommented →
        l₂.cursor.rest.length ≤ rest.length → Reads l l₂ := by
  obtain ⟨hfree, m, b, hm, hreach⟩ := h
  have hcols : ∀ d ∈ cols.head?, d ≤ m.column := by
    intro d hd
    rw [hw] at hd
    obtain rfl := Option.some.inj hd
    omega
  obtain ⟨l₁, hl₁, hcursor, hka, hkey, hreads⟩ :=
    hreach.token rfl hcols fun h0 => by
      have h0 : m.column = 0 := h0
      omega
  refine ⟨l₁, m, b, hl₁, hcursor, hm, hka, ?_, hreads⟩
  rwa [Free, hkey]

theorem beginsPlain_of_not_indicates {c : Char} {rest : List Char} (hc : isBlank c = false)
    (hrest : ∀ y ∈ rest.head?, isBreak y = false)
    (h : Printer.indicates none c rest.head? = false) (next : Option Char)
    (hnext : ∀ y ∈ rest.head?, next = some y) :
    beginsPlain false c next = true ∧ (c = '-' → separates next = false) := by
  by_cases hmark : c = '?' ∨ c = ':' ∨ c = '-'
  · -- These are no indicators when something follows at once.
    have hbeq : (c == '?' || c == ':' || c == '-') = true := by simpa [or_assoc] using hmark
    have hgap : (rest.head?.map isBlank).getD true = false := by
      rw [Printer.indicates] at h
      simpa [hbeq] using h
    cases hy : rest.head? with
    | none =>
      rw [hy] at hgap
      cases hgap
    | some y =>
      have hblank : isBlank y = false := by simpa [hy] using hgap
      have hsep : separates next = false := by
        simp [hnext y hy, separates, hblank, hrest y hy]
      refine ⟨?_, fun _ => hsep⟩
      rcases hmark with rfl | rfl | rfl
      · simp [beginsPlain, isBlank, hsep]
      · simp [beginsPlain, isBlank, hsep]
      · simp [beginsPlain, hc, hnext y hy, hblank]
  · rw [not_or, not_or] at hmark
    have hquote : c ≠ Quoted.apostrophe := by
      rintro rfl
      have : Printer.indicates none Quoted.apostrophe rest.head? = true := rfl
      rw [this] at h
      cases h
    refine ⟨?_, fun hdash => absurd hdash hmark.2.2⟩
    revert h
    simp +contextual [Printer.indicates, beginsPlain, hc, hmark, hquote]

theorem Before.plain {cs : List Char}
    (h : l.Before cols kinds ka j (cs ++ '\n' :: (margin k ++ body))) (hw : cols.head? = some w)
    (hj : w < j) (hk : k ≤ w) (hbody : Starts body) (hcs : Plain.Bare cs)
    (hfirst : ∀ c rest, cs = c :: rest → Printer.indicates none c rest.head? = false) :
    ∃ l' : Lexer, Reads l l' ∧ l'.Before cols (kinds ++ [.scalar true cs]) true k body := by
  obtain ⟨c, rest, rfl⟩ := List.exists_cons_of_ne_nil hcs.ne_nil
  obtain ⟨l₁, m, b, hl₁, hcursor, rfl, hka, hfree, hreads⟩ := h.value hw hj
  have hindent := hl₁.indent_of_head hw
  obtain ⟨m', hm', hread⟩ := Plain.read_bare (k := k) (by exact_mod_cast hk) hbody hcs m b
    (show (w : Int) < m.column by exact_mod_cast hj)
  have hread₁ : Plain.read l₁.inFlow l₁.indent l₁.cursor =
      some (⟨c :: rest, ⟨body, m', true⟩⟩, true) := by
    rw [inFlow, hl₁.outer, hindent, hcursor]
    exact hread
  have hbegins : beginsPlain false c l₁.cursor.second? = true ∧
      (c = '-' → separates l₁.cursor.second? = false) := by
    refine beginsPlain_of_not_indicates ?_ ?_ (hfirst c rest rfl) _ ?_
    · simp [isBlank, (hcs.first c rfl).1, (hcs.onLine c List.mem_cons_self).2]
    · exact fun y hy => (hcs.onLine y (List.mem_cons_of_mem _ (List.mem_of_head? hy))).1
    · intro y hy
      obtain ⟨rest, rfl⟩ := List.head?_eq_some_iff.mp hy
      rw [hcursor]
      rfl
  have htoken : l₁.token? c = some (l₁.afterScalar true ⟨c :: rest, ⟨body, m', true⟩⟩ true) := by
    rw [token?_plain hl₁.outer hbegins.1 hbegins.2, plainScalar?_of_read hfree hread₁]
  refine ⟨_, hreads _ htoken (.inl rfl) (by simp [afterScalar]; omega), ?_, m', true, hm', ?_⟩
  · exact free_afterScalar hl₁ hw (by rwa [hcursor]) hfree _ _ _
  · exact (hl₁.afterScalar ..).reaches (k := 0) rfl hbody

theorem Before.quoted {quote : Char} (hquote : quote = '"' ∨ quote = Quoted.apostrophe)
    {tail cs : List Char}
    (h : l.Before cols kinds ka j (quote :: tail ++ '\n' :: (margin k ++ body)))
    (hw : cols.head? = some w) (hj : w < j) (hbody : Starts body)
    (hread : ∀ m b, ∃ m', Quoted.read quote ⟨quote :: tail ++ '\n' :: (margin k ++ body), m, b⟩ =
      some ⟨cs, ⟨'\n' :: (margin k ++ body), m', false⟩⟩) :
    ∃ l' : Lexer, Reads l l' ∧ l'.Before cols (kinds ++ [.scalar false cs]) true k body := by
  rw [List.cons_append] at h
  obtain ⟨l₁, m, b, hl₁, hcursor, rfl, hka, hfree, hreads⟩ := h.value hw hj
  obtain ⟨m', hread⟩ := hread m b
  have htoken : l₁.token? quote = some (l₁.afterScalar false
      ⟨cs, ⟨'\n' :: (margin k ++ body), m', false⟩⟩ false) := by
    rw [List.cons_append, ← hcursor] at hread
    rw [← quotedScalar?_of_read hfree hread]
    rcases hquote with rfl | rfl <;> rfl
  refine ⟨_, hreads _ htoken (.inr (not_comment_of_break _)) ?_, ?_, (m'.below 1).along k, true,
    ?_, ?_⟩
  · simp [afterScalar]
  · exact free_afterScalar hl₁ hw (by rwa [hcursor]) hfree _ _ _
  · simp [Mark.below]
  · exact (hl₁.afterScalar ..).reaches_line rfl hbody

theorem Before.literal {cs : List Char}
    (h : l.Before cols kinds ka j (Printer.literal (w + 4) cs ++
      ((if Printer.endsWithBreak cs then [] else ['\n']) ++ (margin k ++ body))))
    (hw : cols.head? = some w) (hj : w < j) (hk : k ≤ w) (hbody : Starts body)
    (hcs : Block.Fits cs) :
    ∃ l' : Lexer, Reads l l' ∧ l'.Before cols (kinds ++ [.scalar false cs]) true k body := by
  obtain ⟨tail, htail⟩ : ∃ tail, Printer.literal (w + 4) cs = '|' :: tail := ⟨_, rfl⟩
  rw [htail, List.cons_append] at h
  obtain ⟨l₁, m, b, hl₁, hcursor, rfl, hka, hfree, hreads⟩ := h.value hw hj
  obtain ⟨m', hm', hread⟩ := Block.read_literal (w := w) (show k < w + 4 by omega) hbody hcs m b
  rw [htail, List.cons_append, ← hcursor, ← hl₁.indent_of_head hw] at hread
  let l₂ : Lexer := { l₁.push (.scalar false cs) l₁.cursor.mark.line with
    key := none, cursor := ⟨body, m', true⟩, keyAllowed := true }
  have htoken : l₁.token? '|' = some l₂ := by
    have hflow : l₁.inFlow = false := by simp [inFlow, hl₁.outer]
    have hblock : l₁.token? '|' = l₁.blockScalar? false := by
      simp [token?, hflow]
    rw [hblock, blockScalar?, dropKey?_of_free hfree]
    show (Block.read false l₁.indent l₁.cursor).bind _ = _
    rw [hread]
    rfl
  have hl₂ : l₂.Holds cols (kinds ++ [.scalar false cs]) :=
    ⟨hl₁.outer, hl₁.indents, (hl₁.push (.scalar false cs) l₁.cursor.mark.line).kinds⟩
  have hfree₂ : l₂.Free := by
    intro k hk
    cases hk
  refine ⟨l₂, hreads l₂ htoken (.inl rfl) ?_, hfree₂, m', true, hm', ?_⟩
  · show body.length ≤ _
    simp only [List.length_append]
    omega
  · exact hl₂.reaches (k := 0) rfl hbody

theorem Before.emptyList
    (h : l.Before cols kinds false j ('[' :: ']' :: '\n' :: (margin k ++ body)))
    (hw : cols.head? = some w) (hj : w < j) (hbody : Starts body) :
    ∃ l' : Lexer, Reads l l' ∧ l'.Before cols (kinds ++ [.openList, .closeList]) true k body := by
  obtain ⟨l₁, m, b, hl₁, hcursor, rfl, hka, hfree, hreads⟩ := h.value hw hj
  -- Inside the brackets no block can be closed, and the key around them is put aside.
  let l₂ : Lexer := { l₁.indicator 1 .openList true with key := none, outer := [l₁.key] }
  have hcursor₂ : l₂.cursor = ⟨']' :: '\n' :: (margin k ++ body), m.along 1, false⟩ := by
    show l₁.cursor.skip 1 = _
    rw [hcursor, Cursor.skip_one]
    simp [isBlank]
  have htoken : l₁.token? '[' = some l₂ := by
    show (saveKey? l₁).map _ = _
    rw [saveKey?, hka, if_neg Bool.false_ne_true, Option.map_some, hl₁.outer]
  have hsteps : Reads l l₂ := by
    refine hreads l₂ htoken ?_ (by simp [hcursor₂])
    rw [hcursor₂]
    exact .inr (by simp [isBlank])
  let l₃ : Lexer := { l₂ with key := l₁.key, outer := [] }
  let l₄ : Lexer := l₃.indicator 1 .closeList false
  have hcursor₄ : l₄.cursor = ⟨'\n' :: (margin k ++ body), (m.along 1).along 1, false⟩ := by
    show l₂.cursor.skip 1 = _
    rw [hcursor₂, Cursor.skip_one]
    rfl
  have hstep : l₂.step? = some (l₄, false) := by
    have hstarts : Starts (']' :: '\n' :: (margin k ++ body)) := by
      intro y hy
      obtain rfl : ']' = y := by simpa using hy
      exact ⟨by decide, by decide, by decide, by decide⟩
    have hgap : Cursor.skipGap l₂.inFlow (l₂.cursor.rest.length + 1) l₂.keyAllowed l₂.cursor =
        (true, l₂.cursor) := by
      rw [hcursor₂]
      exact Cursor.skipGap_margin hstarts true _ true 0
    have hclose : l₂.token? ']' = some l₄ := rfl
    rw [step?_of_gap hgap (by rw [hcursor₂]) (by rw [hcursor₂]; simp),
      show Lexer.unroll { l₂ with keyAllowed := true } _ = l₂ from rfl, hclose, Option.map_some,
      finishLine_eq (by rw [hcursor₄]; exact .inr (not_comment_of_break _))]
  have hl₄ : l₄.Holds cols (kinds ++ [.openList, .closeList]) := by
    refine ⟨rfl, hl₁.indents, ?_⟩
    simp [l₄, l₃, l₂, indicator, Lexer.push, ← hl₁.kinds]
  refine ⟨l₄, hsteps.trans (.of_step hstep (by simp [hcursor₄, hcursor₂])), hfree,
    (((m.along 1).along 1).below 1).along k, true, by simp [Mark.below], ?_⟩
  exact hl₄.reaches_line hcursor₄ hbody

theorem Before.entry (h : l.Before cols kinds true w ('-' :: ' ' :: body))
    {opening : List TokenKind} {cols' : List Nat}
    (ho : Opens .blockSequence w cols opening cols') (hw : 0 < w) (hbody : Starts body) :
    ∃ l' : Lexer, Reads l l' ∧
      l'.Before cols' (kinds ++ (opening ++ [.entry])) true (w + 2) body := by
  obtain ⟨hfree, m, b, rfl, hreach⟩ := h
  obtain ⟨l₁, hl₁, hcursor, hka, hkey, hreads⟩ := hreach.token rfl ho.head?_le fun h0 => by
    have h0 : m.column = 0 := h0
    omega
  let l₂ : Lexer := { l₁.roll m kinds.length .blockSequence with key := none }
  have hl₂ : l₂.Holds cols' (kinds ++ opening) := by
    have hrolled : l₁.Holds cols (kinds ++ []) := by rwa [List.append_nil]
    have := hrolled.roll ho
    rw [List.append_nil] at this
    exact ⟨this.outer, this.indents, this.kinds⟩
  have hcursor₂ : (l₂.indicator 1 .entry true).cursor = ⟨margin 1 ++ body, m.along 1, false⟩ := by
    have : l₂.cursor = l₁.cursor := cursor_roll ..
    rw [indicator, this, hcursor, Cursor.skip_one]
    simp [isBlank, margin]
  have htoken : l₁.token? '-' = some (l₂.indicator 1 .entry true) := by
    have hflow : l₁.inFlow = false := by simp [inFlow, hl₁.outer]
    have hsecond : separates l₁.cursor.second? = true := by
      rw [hcursor]
      rfl
    have hentry : l₁.token? '-' = l₁.entry? := by simp [token?, hsecond]
    have hroll : (l₁.roll m kinds.length .blockSequence).Free := by rwa [Free, key_roll, hkey]
    rw [hentry, entry?, hka, hcursor, hl₁.length_tokens]
    simp only [Bool.not_true, Bool.and_false, Bool.false_eq_true, if_false,
      dropKey?_of_free hroll]
    rfl
  have hfree₂ : (l₂.indicator 1 .entry true).Free := by
    intro k hk
    cases hk
  refine ⟨_, hreads _ htoken ?_ (by simp [hcursor₂, margin]), hfree₂, (m.along 1).along 1, false,
    rfl, ?_⟩
  · rw [hcursor₂]
    exact .inr (not_comment_of_starts hbody 1)
  · have := (hl₂.indicator 1 .entry true).reaches hcursor₂ hbody
    rwa [List.append_assoc] at this

def binaryTag : TagName := ⟨['!', '!'], .ofString "binary"⟩

theorem uri?_binary (n : Nat) (body : List Char) :
    TagName.uri? (n + 7) ("binary ".toList ++ body) =
      some (TagName.asBytes "binary".toList, ' ' :: body) := by
  have hword : ∀ c ∈ "binary".toList, TagName.isUriChar c = true :=
    List.all_eq_true.mp (by decide)
  have hspace : TagName.isUriChar ' ' = false := by decide
  simp [TagName.uri?, TagName.asBytes, hspace, hword]

theorem read?_binary (m : Mark) (b : Bool) (body : List Char) :
    TagName.read? ⟨'!' :: '!' :: ("binary ".toList ++ body), m, b⟩ =
      some (binaryTag, ⟨' ' :: body, m.along 8, false⟩) := by
  have hbang : isWordChar '!' = false := by decide
  have hhandle : TagName.takeHandle ⟨'!' :: '!' :: ("binary ".toList ++ body), m, b⟩ =
      (['!', '!'], ⟨"binary ".toList ++ body, m.along 2, false⟩) := by
    simp [TagName.takeHandle, Cursor.span, hbang, Cursor.next?, isBlank]
  have huri : TagName.takeUri? false ⟨"binary ".toList ++ body, m.along 2, false⟩ =
      some (TagName.asBytes "binary".toList, ⟨' ' :: body, m.along 8, false⟩) := by
    have hlen : ("binary ".toList ++ body).length = body.length + 7 := by simp
    have hskip : (⟨"binary".toList ++ ' ' :: body, m.along 2, false⟩ : Cursor).skip 6 =
        ⟨' ' :: body, m.along 8, false⟩ := Cursor.skip_length _
    have hsix : body.length + 7 - (' ' :: body).length = 6 := by
      rw [List.length_cons]
      omega
    rw [TagName.takeUri?, hlen, uri?_binary]
    simp only [hsix]
    rw [← hskip]
    rfl
  have hsuffix : Text.ofBytes (TagName.asBytes "binary".toList) = .ofString "binary" := by
    decide +kernel
  have hsecond : (⟨'!' :: '!' :: ("binary ".toList ++ body), m, b⟩ : Cursor).second? = some '!' :=
    rfl
  rw [TagName.read?, hhandle, hsecond, if_neg (by decide)]
  simp only
  rw [if_pos (by decide), huri, Option.map_some, hsuffix]
  rfl

theorem Before.binary (h : l.Before cols kinds false j ("!!binary ".toList ++ body))
    (hw : cols.head? = some w) (hj : w < j) (hbody : Starts body) :
    ∃ l' : Lexer, Reads l l' ∧
      l'.Before cols (kinds ++ [.tag binaryTag]) false (j + 9) body := by
  have hchars : "!!binary ".toList ++ body = '!' :: '!' :: ("binary ".toList ++ body) := rfl
  rw [hchars] at h
  obtain ⟨l₁, m, b, hl₁, hcursor, rfl, hka, hfree, hreads⟩ := h.value hw hj
  let l₂ : Lexer := { l₁.push (.tag binaryTag) m.line with
    cursor := ⟨' ' :: body, m.along 8, false⟩, keyAllowed := false }
  have htoken : l₁.token? '!' = some l₂ := by
    have htag : l₁.token? '!' = l₁.tag? := rfl
    rw [htag, tag?, saveKey?, hka, if_neg Bool.false_ne_true]
    simp only [hcursor, read?_binary, Option.bind_eq_bind, Option.bind_some]
    rfl
  have hl₂ : l₂.Holds cols (kinds ++ [.tag binaryTag]) :=
    ⟨hl₁.outer, hl₁.indents, (hl₁.push (.tag binaryTag) m.line).kinds⟩
  refine ⟨l₂, hreads l₂ htoken (.inr (not_comment_of_starts hbody 1)) ?_, hfree,
    (m.along 8).along 1, false, rfl, hl₂.reaches (k := 1) rfl hbody⟩
  show (' ' :: body).length ≤ _
  simp

end FlowPack.Yaml.Lexer
