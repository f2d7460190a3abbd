import FlowPack.Yaml.Token.Block
import FlowPack.Proofs.Yaml.Scalars

namespace FlowPack.Yaml.Block

open Printer (margin blockFrom)
open Cursor (IsKept)

/-- A text in lines, apart from its last breaks: each line is followed by a break and perhaps by
more of them. The last line is followed by `e` and `es`. -/
inductive Lined : List Char → Char → List Char → Prop
  | last {line es : List Char} {e : Char} (hne : line ≠ []) (hline : ∀ c ∈ line, isBreak c = false)
    (he : IsKept e) (hes : ∀ c ∈ es, IsKept c) : Lined line e es
  | more {line xs text es : List Char} {x e : Char} (hne : line ≠ [])
    (hline : ∀ c ∈ line, isBreak c = false) (hx : IsKept x) (hxs : ∀ c ∈ xs, IsKept c)
    (h : Lined text e es) : Lined (line ++ x :: (xs ++ text)) e es

theorem blockFrom_line (k : Nat) (b : Bool) {line : List Char}
    (hline : ∀ c ∈ line, isBreak c = false) (hne : line ≠ []) (rest : List Char) :
    blockFrom k b (line ++ rest) =
      (if b then margin k else []) ++ (line ++ blockFrom k false rest) := by
  induction line generalizing b with
  | nil => exact absurd rfl hne
  | cons c line ih =>
    rw [List.forall_mem_cons] at hline
    rw [List.cons_append, Printer.blockFrom_cons, hline.1]
    cases line with
    | nil => simp
    | cons d line =>
      rw [ih false hline.2 (List.cons_ne_nil _ _)]
      simp

theorem blockFrom_breaks (k : Nat) (b : Bool) (x : Char) {xs : List Char}
    (hxs : ∀ c ∈ x :: xs, isBreak c = true) (rest : List Char) :
    blockFrom k b (x :: xs ++ rest) = x :: xs ++ blockFrom k true rest := by
  induction xs generalizing b x with
  | nil => exact if_pos (hxs x List.mem_cons_self)
  | cons y xs ih =>
    rw [List.forall_mem_cons] at hxs
    rw [List.cons_append, blockFrom, if_pos hxs.1, ih true y hxs.2]
    rfl

section Indent

variable {rest : List Char} {m : Mark} {b : Bool}

theorem skip_margin (k : Nat) :
    (⟨margin k ++ rest, m, b⟩ : Cursor).skip k = ⟨rest, m.along k, b⟩ := by
  have h : (⟨margin k ++ rest, m, b⟩ : Cursor).skip (margin k).length = _ := Cursor.skip_length _
  rwa [Cursor.all_isBlank_margin, Bool.and_true, margin, List.length_replicate] at h

theorem length_spaces {k : Nat} (h : ∀ x ∈ rest.head?, x ≠ ' ') :
    ((margin k ++ rest).takeWhile (· == ' ')).length = k := by
  rw [Cursor.takeWhile_append_stop (fun x hx => by simpa using List.eq_of_mem_replicate hx)
    fun x hx => by simpa using h x hx]
  simp [margin]

theorem le_length_spaces (k : Nat) (rest : List Char) :
    k ≤ ((margin k ++ rest).takeWhile (· == ' ')).length := by
  rw [List.takeWhile_append_of_pos fun x hx => by simpa using List.eq_of_mem_replicate hx]
  simp [margin]

theorem skipIndent_of_block (k : Nat) (hm : m.column = 0) :
    skipIndent (some k) ⟨margin k ++ rest, m, b⟩ = ⟨rest, m.along k, b⟩ := by
  have hle := le_length_spaces k rest
  rw [skipIndent]
  dsimp only
  rw [hm, Nat.sub_zero, Nat.min_eq_right hle, skip_margin]

theorem skipIndent_of_less {k : Nat} {limit : Option Nat} (h : ∀ x ∈ rest.head?, x ≠ ' ')
    (hk : ∀ j ∈ limit, k ≤ j) (hm : m.column = 0) :
    skipIndent limit ⟨margin k ++ rest, m, b⟩ = ⟨rest, m.along k, b⟩ := by
  cases limit with
  | none =>
    rw [skipIndent]
    dsimp only
    rw [length_spaces h, skip_margin]
  | some j =>
    rw [skipIndent]
    dsimp only
    rw [length_spaces h, hm, Nat.sub_zero, Nat.min_eq_left (hk j rfl), skip_margin]

theorem skipIndent_of_break {x : Char} (hx : x ≠ ' ') (limit : Option Nat) (hm : m.column = 0) :
    skipIndent limit ⟨x :: rest, m, b⟩ = ⟨x :: rest, m, b⟩ :=
  skipIndent_of_less (k := 0) (by simpa using hx) (fun _ _ => Nat.zero_le _) hm

end Indent

section Gap

variable {limit : Option Nat} {rest : List Char} {m : Mark} (hm : m.column = 0)

include hm

theorem gap_breaks (limit : Option Nat) {ys : List Char} (hys : ∀ y ∈ ys, IsKept y)
    (rest : List Char) (n : Nat) (breaks : List Char) (widest : Nat) :
    ∃ m', m'.column = 0 ∧ gap limit (n + ys.length) breaks widest ⟨ys ++ rest, m, true⟩ =
      gap limit n (breaks ++ ys) widest ⟨rest, m', true⟩ := by
  induction ys generalizing m breaks with
  | nil => exact ⟨m, hm, by simp⟩
  | cons y ys ih =>
    rw [List.forall_mem_cons] at hys
    obtain ⟨m', hm', he⟩ := ih (m := m.below 1) rfl hys.2 (breaks ++ [y])
    refine ⟨m', hm', ?_⟩
    have hspace : y ≠ ' ' := by
      rintro rfl
      exact absurd hys.1 (by decide)
    have htab : y ≠ '\t' := by
      rintro rfl
      exact absurd hys.1 (by decide)
    rw [List.length_cons, ← Nat.add_assoc, List.cons_append, gap.eq_def]
    simp only [skipIndent_of_break hspace limit hm, Cursor.next?, List.head?_cons, hys.1.isBreak,
      Cursor.takeBreak_kept hys.1, hm, Nat.max_zero, if_true]
    simpa [htab] using he

theorem gap_end {k : Nat} (hstop : ∀ x ∈ rest.head?, isBlank x = false ∧ isBreak x = false)
    (hk : ∀ j ∈ limit, k ≤ j) (n : Nat) (breaks : List Char) (widest : Nat) (b : Bool) :
    gap limit (n + 1) breaks widest ⟨margin k ++ rest, m, b⟩ =
      some (breaks, max widest k, ⟨rest, m.along k, b⟩) := by
  have hspace : ∀ x ∈ rest.head?, x ≠ ' ' := by
    rintro x hx rfl
    exact absurd (hstop _ hx).1 (by decide)
  rw [gap.eq_def]
  simp only [skipIndent_of_less hspace hk hm, Mark.column_along, hm, Nat.zero_add]
  cases rest with
  | nil => rfl
  | cons x rest =>
    have hx := hstop x rfl
    have htab : x ≠ '\t' := by
      rintro rfl
      exact absurd hx.1 (by decide)
    simp [Cursor.next?, hx.2, htab]

theorem gap_line {k : Nat} {x : Char} (hx : isBreak x = false) (n : Nat) (breaks : List Char)
    (widest : Nat) (b : Bool) :
    gap (some k) (n + 1) breaks widest ⟨margin k ++ x :: rest, m, b⟩ =
      some (breaks, max widest k, ⟨x :: rest, m.along k, b⟩) := by
  rw [gap.eq_def]
  simp [skipIndent_of_block k hm, hm, Cursor.next?, hx]

theorem gap_breaks_end {ys : List Char} (hys : ∀ y ∈ ys, IsKept y) {k width : Nat}
    (hk : k ≤ width) (hstop : ∀ x ∈ rest.head?, isBlank x = false ∧ isBreak x = false) :
    ∃ m' widest, m'.column = k ∧
      gap (some width) ((ys ++ (margin k ++ rest)).length + 1) [] 0
        ⟨ys ++ (margin k ++ rest), m, true⟩ = some (ys, widest, ⟨rest, m', true⟩) := by
  obtain ⟨m', hm', he⟩ := gap_breaks hm (some width) hys (margin k ++ rest)
    ((margin k ++ rest).length + 1) [] 0
  refine ⟨m'.along k, max 0 k, by rw [Mark.column_along, hm', Nat.zero_add], ?_⟩
  rw [List.length_append, Nat.add_comm ys.length, Nat.add_right_comm, he,
    gap_end hm' hstop (by simpa using hk), List.nil_append]

theorem gap_breaks_line {ys : List Char} (hys : ∀ y ∈ ys, IsKept y) {k : Nat} {x : Char}
    (hx : isBreak x = false) (rest : List Char) :
    ∃ m' widest, m'.column = k ∧
      gap (some k) ((ys ++ (margin k ++ x :: rest)).length + 1) [] 0
        ⟨ys ++ (margin k ++ x :: rest), m, true⟩ = some (ys, widest, ⟨x :: rest, m', true⟩) := by
  obtain ⟨m', hm', he⟩ := gap_breaks hm (some k) hys (margin k ++ x :: rest)
    ((margin k ++ x :: rest).length + 1) [] 0
  refine ⟨m'.along k, max 0 k, by rw [Mark.column_along, hm', Nat.zero_add], ?_⟩
  rw [List.length_append, Nat.add_comm ys.length, Nat.add_right_comm, he, gap_line hm' hx,
    List.nil_append]

end Gap

theorem lines_line {width : Nat} {line rest : List Char} {x : Char}
    (hline : ∀ c ∈ line, isBreak c = false) (hx : IsKept x) {m : Mark} (hm : m.column = width)
    (n : Nat) (l : Lines) (empty : List Char) (b : Bool) :
    lines false width (n + 1) l empty ⟨line ++ x :: rest, m, b⟩ =
      (gap (some width) (rest.length + 1) [] 0 ⟨rest, (m.along line.length).below 1, true⟩).bind
        fun (empty', _, c) =>
          lines false width n
            ⟨l.text ++ l.ended ++ empty ++ line, [x], (line.head?.map isBlank).getD false⟩
            empty' c := by
  have hspan : (⟨line ++ x :: rest, m, b⟩ : Cursor).span (fun c => !isBreak c) = _ :=
    Cursor.span_append (by simpa using hline) (by simpa using hx.isBreak)
  have hfull : (line ++ x :: rest).isEmpty = false := by simp
  rw [lines.eq_def]
  simp only [hm, hfull, beq_self_eq_true, Bool.not_false, Bool.and_self, if_true, hspan,
    Cursor.takeBreak_kept hx, Lines.add, Bool.false_and, Bool.false_eq_true, if_false]
  cases gap (some width) (rest.length + 1) [] 0 ⟨rest, (m.along line.length).below 1, true⟩ with
  | none => rfl
  | some r => rfl

theorem lines_end {width : Nat} {c : Cursor} (h : c.mark.column ≠ width) (n : Nat) (l : Lines)
    (empty : List Char) : lines false width n l empty c = some (l, empty, c) := by
  cases n with
  | zero => rfl
  | succ n => simp [lines, h]

theorem Lined.exists_cons {text es : List Char} {e : Char} (h : Lined text e es) :
    ∃ c rest, text = c :: rest ∧ isBreak c = false := by
  cases h with
  | last hne hline =>
    obtain ⟨c, rest, rfl⟩ := List.exists_cons_of_ne_nil hne
    exact ⟨c, rest, rfl, hline c List.mem_cons_self⟩
  | more hne hline =>
    obtain ⟨c, rest, rfl⟩ := List.exists_cons_of_ne_nil hne
    exact ⟨c, _, rfl, hline c List.mem_cons_self⟩

theorem Lined.blockFrom {text es : List Char} {e : Char} (h : Lined text e es) (k : Nat)
    (rest : List Char) :
    Printer.blockFrom k true (text ++ rest) =
      margin k ++ Printer.blockFrom k false (text ++ rest) := by
  obtain ⟨c, text, rfl, hc⟩ := h.exists_cons
  simp [Printer.blockFrom_cons, hc]

theorem Lined.blockFrom_cons {text es : List Char} {e : Char} (h : Lined text e es) (k : Nat)
    (rest after : List Char) :
    ∃ c tail, isBreak c = false ∧
      Printer.blockFrom k false (text ++ rest) ++ after = c :: tail := by
  obtain ⟨c, text, rfl, hc⟩ := h.exists_cons
  exact ⟨c, _, hc, by rw [List.cons_append, Printer.blockFrom_cons]; rfl⟩

theorem blockFrom_last (k : Nat) {line es : List Char} {e : Char} (hne : line ≠ [])
    (hline : ∀ c ∈ line, isBreak c = false) (he : IsKept e) (hes : ∀ c ∈ es, IsKept c) :
    blockFrom k false (line ++ e :: es) = line ++ e :: es := by
  have hb := blockFrom_breaks k false e
    (List.forall_mem_cons.mpr ⟨he.isBreak, fun c hc => (hes c hc).isBreak⟩) []
  rw [List.append_nil] at hb
  rw [blockFrom_line k false hline hne, hb]
  simp [blockFrom]

theorem Lined.blockFrom_more {text es : List Char} {e : Char} (h : Lined text e es) (k : Nat)
    {line xs : List Char} {x : Char} (hne : line ≠ []) (hline : ∀ c ∈ line, isBreak c = false)
    (hx : IsKept x) (hxs : ∀ c ∈ xs, IsKept c) (rest : List Char) :
    Printer.blockFrom k false (line ++ x :: (xs ++ text) ++ rest) =
      line ++ x :: (xs ++ (margin k ++ Printer.blockFrom k false (text ++ rest))) := by
  have hb := blockFrom_breaks k false x
    (List.forall_mem_cons.mpr ⟨hx.isBreak, fun c hc => (hxs c hc).isBreak⟩) (text ++ rest)
  rw [h.blockFrom] at hb
  have hassoc : x :: (xs ++ text) ++ rest = x :: xs ++ (text ++ rest) := by simp
  rw [List.append_assoc, hassoc, blockFrom_line k false hline hne, hb]
  simp

theorem lines_lined {width k : Nat} (hk : k < width) {body : List Char} (hbody : Starts body)
    {text es : List Char} {e : Char} (h : Lined text e es) {n : Nat} (hn : text.length < n)
    (l : Lines) (empty : List Char) {m : Mark} (hm : m.column = width) (b : Bool) :
    ∃ m' indented, m'.column = k ∧
      lines false width n l empty
          ⟨blockFrom width false (text ++ e :: es) ++ (margin k ++ body), m, b⟩ =
        some (⟨l.text ++ l.ended ++ empty ++ text, [e], indented⟩, es, ⟨body, m', true⟩) := by
  have hstop : ∀ x ∈ body.head?, isBlank x = false ∧ isBreak x = false := fun x hx =>
    ⟨(hbody x hx).notBlank, (hbody x hx).notBreak⟩
  -- The breaks after a line are read with it but belong to the line that follows.
  induction h generalizing n l empty m b with
  | @last line es e hne hline he hes =>
    obtain ⟨n, rfl⟩ := Nat.exists_eq_add_one_of_ne_zero (Nat.ne_zero_of_lt hn)
    obtain ⟨m', widest, hm', hgap⟩ := gap_breaks_end (m := (m.along line.length).below 1) rfl hes
      (Nat.le_of_lt hk) hstop
    refine ⟨m', (line.head?.map isBlank).getD false, hm', ?_⟩
    rw [blockFrom_last width hne hline he hes, List.append_assoc, List.cons_append,
      lines_line hline he hm, hgap, Option.bind_some]
    dsimp only
    rw [lines_end (by rw [hm']; omega)]
  | @more line xs text es x e hne hline hx hxs h ih =>
    obtain ⟨n, rfl⟩ := Nat.exists_eq_add_one_of_ne_zero (Nat.ne_zero_of_lt hn)
    have hout : blockFrom width false (line ++ x :: (xs ++ text) ++ e :: es) ++ (margin k ++ body) =
        line ++ x :: (xs ++ (margin width ++
          (blockFrom width false (text ++ e :: es) ++ (margin k ++ body)))) := by
      rw [h.blockFrom_more width hne hline hx hxs]
      simp
    obtain ⟨c, rest, hc, hcons⟩ := h.blockFrom_cons width (e :: es) (margin k ++ body)
    obtain ⟨m₁, widest, hm₁, hgap⟩ :=
      gap_breaks_line (m := (m.along line.length).below 1) (k := width) rfl hxs hc rest
    obtain ⟨m', indented, hm', he⟩ := ih (n := n) (by
        simp at hn
        omega)
      ⟨l.text ++ l.ended ++ empty ++ line, [x], (line.head?.map isBlank).getD false⟩ xs hm₁ true
    refine ⟨m', indented, hm', ?_⟩
    rw [hout, lines_line hline hx hm]
    rw [hcons] at he ⊢
    rw [hgap, Option.bind_some]
    dsimp only
    rw [he]
    simp

theorem Lined.getLast? {text es : List Char} {e : Char} (h : Lined text e es) :
    ∃ c, text.getLast? = some c ∧ isBreak c = false := by
  induction h with
  | @last line es e hne hline =>
    exact ⟨line.getLast hne, List.getLast?_eq_some_getLast hne, hline _ (List.getLast_mem hne)⟩
  | @more line xs text es x e hne hline hx hxs h ih =>
    obtain ⟨c, hc, hb⟩ := ih
    refine ⟨c, ?_, hb⟩
    rw [List.getLast?_append, List.getLast?_cons, List.getLast?_append, hc]
    rfl

theorem Lined.breaks {text es : List Char} {e : Char} (h : Lined text e es) :
    ∀ c ∈ e :: es, IsKept c := by
  induction h with
  | last hne hline he hes => exact List.forall_mem_cons.mpr ⟨he, hes⟩
  | more hne hline hx hxs h ih => exact ih

theorem exists_lined {cs : List Char} (hfirst : ∀ c ∈ cs.head?, isBreak c = false)
    (hkept : ∀ c ∈ cs, isBreak c = true → IsKept c)
    (hlast : ∃ c, cs.getLast? = some c ∧ isBreak c = true) :
    ∃ text e es, cs = text ++ e :: es ∧ Lined text e es := by
  induction hn : cs.length using Nat.strongRecOn generalizing cs with
  | ind n ih =>
    obtain ⟨line, gap, rest, rfl, hline, hgap, hrest, hend⟩ := exists_word_gap isBreak cs
    obtain ⟨z, hz, hzb⟩ := hlast
    have hkept' : ∀ c ∈ gap, IsKept c := fun c hc =>
      hkept c (List.mem_append_right _ (List.mem_append_left _ hc)) (hgap c hc)
    cases gap with
    | nil =>
      -- Without a break the last character could not be one.
      obtain rfl := hend rfl
      rw [List.append_nil, List.append_nil] at hz
      have := hline z (List.mem_of_getLast? hz)
      rw [hzb] at this
      cases this
    | cons x xs =>
      have hne : line ≠ [] := by
        rintro rfl
        have := hfirst x rfl
        rw [hgap x List.mem_cons_self] at this
        cases this
      rw [List.forall_mem_cons] at hkept'
      cases rest with
      | nil =>
        rw [List.append_nil]
        exact ⟨line, x, xs, rfl, .last hne hline hkept'.1 hkept'.2⟩
      | cons c rest =>
        have hz' : (c :: rest).getLast? = some z := by
          rwa [List.getLast?_append, List.getLast?_append, List.getLast?_cons, Option.some_or,
            Option.some_or, ← List.getLast?_cons] at hz
        obtain ⟨text, e, es, he, hlined⟩ := ih (c :: rest).length (by
            rw [← hn]
            simp
            omega) hrest
          (fun d hd => hkept d (List.mem_append_right _ (List.mem_append_right _ hd)))
          ⟨z, hz', hzb⟩ rfl
        refine ⟨line ++ x :: (xs ++ text), e, es, ?_, .more hne hline hkept'.1 hkept'.2 hlined⟩
        rw [he]
        simp

/-- A text that a literal block can hold. -/
structure Fits (cs : List Char) : Prop where
  ne_nil : cs ≠ []
  first : ∀ c ∈ cs.head?, isBreak c = false ∧ c ≠ '\t'
  kept : ∀ c ∈ cs, isBreak c = true → IsKept c

theorem Fits.lined {cs : List Char} (h : Fits cs) :
    ∃ text e es, Lined text e es ∧
      (cs = text ∧ e = '\n' ∧ es = [] ∧ Printer.endsWithBreak cs = false ∨
        cs = text ++ e :: es ∧ Printer.endsWithBreak cs = true) := by
  cases hb : Printer.endsWithBreak cs with
  | true =>
    have hlast : ∃ c, cs.getLast? = some c ∧ isBreak c = true := by
      rw [Printer.endsWithBreak] at hb
      cases hl : cs.getLast? with
      | none => simp [hl] at hb
      | some c => exact ⟨c, rfl, by simpa [hl] using hb⟩
    obtain ⟨text, e, es, he, hl⟩ := exists_lined (fun c hc => (h.first c hc).1) h.kept hlast
    exact ⟨text, e, es, hl, .inr ⟨he, rfl⟩⟩
  | false =>
    obtain ⟨c, rest, hcs⟩ := List.exists_cons_of_ne_nil h.ne_nil
    have hfirst : ∀ c ∈ (cs ++ ['\n']).head?, isBreak c = false := by
      rw [hcs]
      exact fun d hd => (h.first d (by rw [hcs]; exact hd)).1
    have hkept : ∀ c ∈ cs ++ ['\n'], isBreak c = true → IsKept c := by
      intro d hd hbreak
      rcases List.mem_append.mp hd with hd | hd
      · exact h.kept d hd hbreak
      · exact .inl (List.mem_singleton.mp hd)
    obtain ⟨text, e, es, he, hl⟩ :=
      exists_lined hfirst hkept ⟨'\n', List.getLast?_concat, by decide⟩
    -- More than one break at the end would make the last one of `cs` a break.
    rcases List.eq_nil_or_concat es with rfl | ⟨es', z, rfl⟩
    · obtain ⟨rfl, hz⟩ := List.append_inj' he rfl
      exact ⟨cs, e, [], hl, .inl ⟨rfl, (List.singleton_inj.mp hz).symm, rfl, rfl⟩⟩
    · have hsplit : cs ++ ['\n'] = (text ++ e :: es') ++ [z] := by simpa using he
      obtain ⟨rfl, -⟩ := List.append_inj' hsplit rfl
      have hne : e :: es' ≠ [] := List.cons_ne_nil _ _
      have hmem := List.getLast_mem hne
      have hbreak := (hl.breaks _ (by
        rw [List.concat_eq_append, ← List.cons_append]
        exact List.mem_append_left _ hmem)).isBreak
      rw [Printer.endsWithBreak, List.getLast?_append, List.getLast?_eq_some_getLast hne,
        Option.some_or, Option.map_some, Option.getD_some, hbreak] at hb
      cases hb

def Chomp.mark : Chomp → List Char
  | clip => []
  | strip => ['-']
  | keep => ['+']

theorem header?_marks (opens : Bool) (chomp : Chomp) (rest : List Char) (m : Mark) (b : Bool) :
    ∃ m', m'.column = 0 ∧
      header? ⟨(if opens then ['4'] else []) ++ chomp.mark ++ '\n' :: rest, m, b⟩ =
        some (⟨chomp, if opens then some 4 else none⟩, ⟨rest, m', true⟩) := by
  have hbreak : isBreak '\n' = true := by decide
  have hblank : isBlank '\n' = false := by decide
  have hstay (m : Mark) (b : Bool) :
      (⟨'\n' :: rest, m, b⟩ : Cursor).skipWhile isBlank = ⟨'\n' :: rest, m, b⟩ := by
    simp [Cursor.skipWhile, Cursor.span, hblank]
  have hnext (m : Mark) (b : Bool) :
      (⟨'\n' :: rest, m, b⟩ : Cursor).skipBreak = ⟨rest, m.below 1, true⟩ := by
    simp [Cursor.skipBreak, Cursor.next?, endsLine, hbreak, Cursor.takeBreak_kept (.inl rfl)]
  cases opens <;> cases chomp <;>
    exact ⟨_, rfl, by
      simp [header?, chomp?, increment?, Chomp.mark, Cursor.next?, isDigit, endsLine, hbreak, hstay,
        hnext]; rfl⟩

theorem blockMarks_of_lined {text es : List Char} {e : Char} (h : Lined text e es)
    {cs : List Char} (hcs : cs = text ∧ es = [] ∨ cs = text ++ e :: es) :
    ∃ chomp : Chomp,
      Printer.blockMarks cs =
        (if decide (cs.head? = some ' ') then ['4'] else []) ++ chomp.mark ∧
      cs = match chomp with
        | .strip => text
        | .clip => text ++ [e]
        | .keep => text ++ [e] ++ es := by
  have hopens : (cs.head?.map fun c => c == ' ' || isBreak c).getD false =
      decide (cs.head? = some ' ') := by
    obtain ⟨c, rest, rfl, hc⟩ := h.exists_cons
    rcases hcs with ⟨rfl, -⟩ | rfl <;> simp [hc, Bool.beq_eq_decide_eq]
  have hstep : (toString Printer.step).toList = ['4'] := by decide
  obtain ⟨c, hc, hcb⟩ := h.getLast?
  obtain ⟨init, hinit⟩ := List.getLast?_eq_some_iff.mp hc
  unfold Printer.blockMarks
  rw [hopens, hstep]
  -- The last two characters decide which mark there is.
  rcases hcs with ⟨rfl, -⟩ | rfl
  · refine ⟨.strip, ?_, rfl⟩
    have hrev : cs.reverse = c :: init.reverse := by rw [hinit, List.reverse_concat]
    rw [hrev]
    cases init.reverse <;> simp [hcb, Chomp.mark]
  · have hbreaks := h.breaks
    rcases List.eq_nil_or_concat es with rfl | ⟨es', z, rfl⟩
    · refine ⟨.clip, ?_, rfl⟩
      have he := (hbreaks e List.mem_cons_self).isBreak
      have hrev : (text ++ [e]).reverse = e :: c :: init.reverse := by
        rw [List.reverse_concat, hinit, List.reverse_concat]
      rw [hrev]
      simp [hcb, he, Chomp.mark]
    · refine ⟨.keep, ?_, by simp⟩
      obtain ⟨pre, y, hy⟩ : ∃ pre y, e :: es' = pre ++ [y] :=
        ⟨_, _, (List.dropLast_append_getLast (List.cons_ne_nil e es')).symm⟩
      have hrev : (text ++ e :: (es'.concat z)).reverse = z :: y :: (text ++ pre).reverse := by
        rw [List.concat_eq_append, ← List.cons_append, hy]
        simp
      have hz := (hbreaks z (by simp)).isBreak
      have hyb := (hbreaks y (by
        rw [List.concat_eq_append, ← List.cons_append, hy]
        simp)).isBreak
      rw [hrev]
      simp [hz, hyb, Chomp.mark]

theorem blockFrom_append_break (k : Nat) (b : Bool) (cs : List Char) {x : Char}
    (hx : isBreak x = true) : blockFrom k b (cs ++ [x]) = blockFrom k b cs ++ [x] := by
  induction cs generalizing b with
  | nil => simp [blockFrom, hx]
  | cons c cs ih => rw [List.cons_append, Printer.blockFrom_cons, Printer.blockFrom_cons, ih]; simp

theorem length_le_blockFrom (k : Nat) (b : Bool) (cs : List Char) :
    cs.length ≤ (blockFrom k b cs).length := by
  induction cs generalizing b with
  | nil => exact Nat.le_refl _
  | cons c cs ih =>
    have := ih (isBreak c)
    simp only [Printer.blockFrom_cons, List.length_append, List.length_cons]
    omega

theorem literal_of_lined {text es : List Char} {e : Char} (h : Lined text e es) {cs : List Char}
    (hcs : cs = text ∧ e = '\n' ∧ es = [] ∧ Printer.endsWithBreak cs = false ∨
      cs = text ++ e :: es ∧ Printer.endsWithBreak cs = true) (width : Nat) (rest : List Char) :
    Printer.literal width cs ++ ((if Printer.endsWithBreak cs then [] else ['\n']) ++ rest) =
      '|' :: (Printer.blockMarks cs ++ '\n' :: (margin width ++
        (blockFrom width false (text ++ e :: es) ++ rest))) := by
  have hliteral : Printer.literal width cs =
      '|' :: Printer.blockMarks cs ++ '\n' :: blockFrom width true cs := by
    obtain ⟨c, more, rfl, hc⟩ := h.exists_cons
    rcases hcs with ⟨rfl, -⟩ | ⟨rfl, -⟩ <;> simp [Printer.literal, hc]
  have hlines : blockFrom width true cs ++ (if Printer.endsWithBreak cs then [] else ['\n']) =
      margin width ++ blockFrom width false (text ++ e :: es) := by
    rw [← h.blockFrom]
    rcases hcs with ⟨rfl, rfl, rfl, hb⟩ | ⟨rfl, hb⟩
    · rw [hb, blockFrom_append_break _ _ _ (by decide)]
      rfl
    · rw [hb, if_pos rfl, List.append_nil]
  rw [hliteral, List.append_assoc, List.cons_append, List.cons_append,
    ← List.append_assoc (blockFrom width true cs), hlines, List.append_assoc]

theorem gap_first (w : Nat) {c : Char} (hc : isBreak c = false) (htab : c ≠ '\t')
    (rest : List Char) {m : Mark} (hm : m.column = 0) {given : Option Nat}
    (hgiven : given = (if decide (c = ' ') then some 4 else none).map
      fun j => (max (w : Int) 0).toNat + j) :
    ∃ widest, given.getD (max (max widest ((w : Int) + 1).toNat) 1) = w + 4 ∧
      gap given ((margin (w + 4) ++ c :: rest).length + 1) [] 0
          ⟨margin (w + 4) ++ c :: rest, m, true⟩ =
        some ([], widest, ⟨c :: rest, m.along (w + 4), true⟩) := by
  by_cases hspace : c = ' '
  · obtain rfl : given = some (w + 4) := by simp [hgiven, hspace]
    exact ⟨_, rfl, gap_line hm hc ..⟩
  · obtain rfl : given = none := by simp [hgiven, hspace]
    have hblank : isBlank c = false := by simp [isBlank, hspace, htab]
    refine ⟨max 0 (w + 4), ?_, gap_end hm (by simp [hblank, hc]) (by simp) ..⟩
    rw [Option.getD_none]
    omega

theorem read_literal {w k : Nat} (hk : k < w + 4) {body : List Char} (hbody : Starts body)
    {cs : List Char} (h : Fits cs) (m : Mark) (b : Bool) :
    ∃ m', m'.column = k ∧
      read false w ⟨Printer.literal (w + 4) cs ++
        ((if Printer.endsWithBreak cs then [] else ['\n']) ++ (margin k ++ body)), m, b⟩ =
      some ⟨cs, ⟨body, m', true⟩⟩ := by
  obtain ⟨text, e, es, hl, hcs⟩ := h.lined
  obtain ⟨chomp, hmarks, htext⟩ := blockMarks_of_lined hl (hcs.imp (fun h => ⟨h.1, h.2.2.1⟩) (·.1))
  obtain ⟨c, rest, hc, hfirst⟩ : ∃ c rest, cs.head? = some c ∧
      blockFrom (w + 4) false (text ++ e :: es) ++ (margin k ++ body) = c :: rest := by
    obtain ⟨c, text, rfl, -⟩ := hl.exists_cons
    refine ⟨c, _, ?_, by rw [List.cons_append, Printer.blockFrom_cons]; rfl⟩
    rcases hcs with ⟨rfl, -⟩ | ⟨rfl, -⟩ <;> rfl
  have hstart := h.first c hc
  have hopens : decide (cs.head? = some ' ') = decide (c = ' ') := by simp [hc]
  obtain ⟨m₁, hm₁, hheader⟩ := header?_marks (decide (c = ' ')) chomp
    (margin (w + 4) ++ c :: rest) (m.along 1) false
  obtain ⟨widest, hwidth, hgap⟩ := gap_first w hstart.1 hstart.2 rest hm₁ rfl
  have hlen : text.length < (c :: rest).length + 1 := by
    have := length_le_blockFrom (w + 4) false (text ++ e :: es)
    rw [← hfirst]
    simp only [List.length_append] at this ⊢
    omega
  obtain ⟨m', indented, hm', hlines⟩ := lines_lined hk hbody hl hlen {} []
    (m := m₁.along (w + 4)) (by rw [Mark.column_along, hm₁, Nat.zero_add]) true
  refine ⟨m', hm', ?_⟩
  have hbar : isBlank '|' = false := by decide
  rw [literal_of_lined hl hcs, hfirst, hmarks, hopens]
  rw [hfirst] at hlines
  unfold read
  simp only [Cursor.skip_one, hbar, Bool.and_false, hheader, Option.bind_eq_bind, Option.bind_some,
    hgap, hwidth, hlines]
  cases chomp <;> rw [htext] <;> rfl

end FlowPack.Yaml.Block
