import FlowPack.Yaml.Printer
import FlowPack.Yaml.Token.Lexer
import FlowPack.Proofs.Text.Utf8

namespace FlowPack.Yaml

open Printer (margin)

/-- A character that ends every gap. -/
structure Solid (x : Char) : Prop where
  notBlank : isBlank x = false
  notBreak : isBreak x = false
  notComment : x ≠ '#'
  notMark : x ≠ Char.ofNat 0xFEFF

/-- What may follow the indentation of a line: something solid or the end of the document. -/
def Starts (body : List Char) : Prop := ∀ x ∈ body.head?, Solid x

namespace Mark

def along (m : Mark) (n : Nat) : Mark :=
  { m with index := m.index + n, column := m.column + n }

def below (m : Mark) (n : Nat) : Mark := ⟨m.index + n, m.line + 1, 0⟩

@[simp] theorem along_zero (m : Mark) : m.along 0 = m := rfl

@[simp] theorem along_along (m : Mark) (j k : Nat) : (m.along j).along k = m.along (j + k) := by
  simp [along, Nat.add_assoc]

@[simp] theorem column_along (m : Mark) (n : Nat) : (m.along n).column = m.column + n := rfl

@[simp] theorem line_along (m : Mark) (n : Nat) : (m.along n).line = m.line := rfl

@[simp] theorem index_along (m : Mark) (n : Nat) : (m.along n).index = m.index + n := rfl

end Mark

namespace Cursor

variable {rest : List Char} {m : Mark} {b : Bool}

theorem pass_append (run : List Char) :
    (⟨run ++ rest, m, b⟩ : Cursor).pass run = ⟨rest, m.along run.length, b && run.all isBlank⟩ := by
  simp [pass, Mark.along]

@[simp] theorem pass_nil (c : Cursor) : c.pass [] = c := by
  simp [pass]

@[simp] theorem skip_one (x : Char) :
    (⟨x :: rest, m, b⟩ : Cursor).skip 1 = ⟨rest, m.along 1, b && isBlank x⟩ := by
  simp [skip, pass, Mark.along]

theorem skip_length (run : List Char) :
    (⟨run ++ rest, m, b⟩ : Cursor).skip run.length =
      ⟨rest, m.along run.length, b && run.all isBlank⟩ := by
  rw [skip, List.take_left, pass_append]

theorem takeWhile_append_stop {p : Char → Bool} {run : List Char} (hrun : ∀ x ∈ run, p x = true)
    (hrest : ∀ x ∈ rest.head?, p x = false) : (run ++ rest).takeWhile p = run := by
  rw [List.takeWhile_append_of_pos hrun]
  cases rest with
  | nil => simp
  | cons x rest => simp [hrest x rfl]

theorem span_append {p : Char → Bool} {run : List Char} (hrun : ∀ x ∈ run, p x = true)
    (hrest : ∀ x ∈ rest.head?, p x = false) :
    (⟨run ++ rest, m, b⟩ : Cursor).span p =
      (run, ⟨rest, m.along run.length, b && run.all isBlank⟩) := by
  rw [span]
  dsimp only
  rw [takeWhile_append_stop hrun hrest, pass_append]

theorem all_isBlank_margin (k : Nat) : (margin k).all isBlank = true := by
  simp [margin, isBlank]

theorem skipWhile_margin {p : Char → Bool} (k : Nat) (hp : p ' ' = true)
    (hrest : ∀ x ∈ rest.head?, p x = false) :
    (⟨margin k ++ rest, m, b⟩ : Cursor).skipWhile p = ⟨rest, m.along k, b⟩ := by
  have hrun : ∀ x ∈ margin k, p x = true := fun x hx => by rwa [List.eq_of_mem_replicate hx]
  rw [skipWhile, span_append hrun hrest, all_isBlank_margin, Bool.and_true]
  simp [margin]

def IsKept (x : Char) : Prop := x = '\n' ∨ x.toNat = 0x2028 ∨ x.toNat = 0x2029

instance (x : Char) : Decidable (IsKept x) := inferInstanceAs (Decidable (_ ∨ _ ∨ _))

theorem takeBreak_kept {x : Char} (h : IsKept x) :
    (⟨x :: rest, m, b⟩ : Cursor).takeBreak = ([x], ⟨rest, m.below 1, true⟩) := by
  unfold takeBreak
  split
  · next he =>
    obtain ⟨rfl, -⟩ := List.cons.inj he
    exact absurd h (by decide)
  · next he =>
    obtain ⟨rfl, rfl⟩ := List.cons.inj he
    rcases h with rfl | h | h
    · rfl
    · simp [h, newLine, Mark.below]
    · simp [h, newLine, Mark.below]
  · next he => cases he

theorem IsKept.isBreak {x : Char} (h : IsKept x) : isBreak x = true := by
  rcases h with rfl | h | h
  · decide
  · simp [Yaml.isBreak, h]
  · simp [Yaml.isBreak, h]

theorem skipGap_break {x : Char} (hx : IsKept x) (inFlow : Bool) (n : Nat) (ka : Bool) :
    skipGap inFlow (n + 1) ka ⟨x :: rest, m, b⟩ =
      skipGap inFlow n (ka || !inFlow) ⟨rest, m.below 1, true⟩ := by
  have hother : x ≠ Char.ofNat 0xFEFF ∧ x ≠ ' ' ∧ x ≠ '\t' ∧ x ≠ '#' := by
    refine ⟨?_, ?_, ?_, ?_⟩ <;> rintro rfl <;> exact absurd hx (by decide)
  obtain ⟨hmark, hspace, htab, hcomment⟩ := hother
  have hstay : (⟨x :: rest, m, b⟩ : Cursor).skipWhile
      (fun y => y == ' ' || ((inFlow || !ka) && y == '\t')) = ⟨x :: rest, m, b⟩ := by
    simp [skipWhile, span, hspace, htab]
  rw [skipGap]
  simp only [next?, List.head?_cons, beq_iff_eq, Bool.and_eq_true, Option.some.injEq, hmark,
    and_false, if_false, hstay, hcomment, hx.isBreak, if_true, takeBreak_kept hx]

section Gap

variable {body : List Char} (hbody : Starts body)

include hbody

theorem skipGap_margin (inFlow : Bool) (n : Nat) (ka : Bool) (k : Nat) :
    skipGap inFlow (n + 1) ka ⟨margin k ++ body, m, b⟩ = (ka, ⟨body, m.along k, b⟩) := by
  have hmark : (⟨margin k ++ body, m, b⟩ : Cursor).next? ≠ some (Char.ofNat 0xFEFF) := by
    cases k with
    | zero => exact fun h => (hbody _ h).notMark rfl
    | succ k => simp [next?, margin, List.replicate_succ]
  have hstop : ∀ x ∈ body.head?,
      (x == ' ' || ((inFlow || !ka) && x == '\t')) = false := by
    intro x hx
    have hb := (hbody x hx).notBlank
    simp only [isBlank, Bool.or_eq_false_iff] at hb
    simp [hb.1, hb.2]
  have hcomment : (⟨body, m.along k, b⟩ : Cursor).next? ≠ some '#' :=
    fun h => (hbody _ h).notComment rfl
  unfold skipGap
  dsimp only
  simp only [hmark, beq_iff_eq, Bool.and_eq_true, and_false, if_false]
  rw [skipWhile_margin k (by simp) hstop, if_neg hcomment]
  cases body with
  | nil => rfl
  | cons x body => simp [next?, (hbody x rfl).notBreak]

theorem skipGap_line (n : Nat) (ka : Bool) (k : Nat) :
    skipGap false (n + 2) ka ⟨'\n' :: (margin k ++ body), m, b⟩ =
      (true, ⟨body, (m.below 1).along k, true⟩) := by
  rw [skipGap_break (.inl rfl), skipGap_margin hbody, Bool.not_false, Bool.or_true]

end Gap

end Cursor

namespace Fold

variable {rest : List Char} {m : Mark} {b : Bool} {f : Fold}

theorem read_stop (indent : Int) (n : Nat) (f : Fold)
    (h : ∀ x ∈ rest.head?, isBlank x = false ∧ isBreak x = false) :
    read indent n f ⟨rest, m, b⟩ = some (f, ⟨rest, m, b⟩) := by
  cases n with
  | zero => rfl
  | succ n =>
    cases rest with
    | nil => rfl
    | cons x rest => simp [read, Cursor.next?, h x rfl]

theorem read_space (indent : Int) (n : Nat) (f : Fold) :
    read indent (n + 1) f ⟨' ' :: rest, m, b⟩ =
      read indent n (if f.broken then f else { f with blanks := f.blanks ++ [' '] })
        ⟨rest, m.along 1, b⟩ := by
  cases h : f.broken <;> simp [read, Cursor.next?, isBlank, h]

theorem read_break (indent : Int) (n : Nat) (f : Fold) {x : Char} (hx : Cursor.IsKept x) :
    read indent (n + 1) f ⟨x :: rest, m, b⟩ =
      read indent n
        (if f.broken then { f with others := f.others ++ [x] }
          else { f with blanks := [], broken := true, first := [x] })
        ⟨rest, m.below 1, true⟩ := by
  have hblank : isBlank x = false := by
    cases hb : isBlank x with
    | false => rfl
    | true =>
      rcases Bool.or_eq_true .. ▸ hb with h | h <;> rw [eq_of_beq h] at hx <;>
        exact absurd hx (by decide)
  cases h : f.broken <;>
    simp [read, Cursor.next?, hblank, hx.isBreak, Cursor.takeBreak_kept hx, h]

theorem read_margin (indent : Int) (n k : Nat) (f : Fold) :
    read indent (n + k) f ⟨margin k ++ rest, m, b⟩ =
      read indent n (if f.broken then f else { f with blanks := f.blanks ++ margin k })
        ⟨rest, m.along k, b⟩ := by
  induction k generalizing m f with
  | zero => simp [margin]
  | succ k ih =>
    have hs : margin (k + 1) = ' ' :: margin k := List.replicate_succ
    rw [← Nat.add_assoc, hs, List.cons_append, read_space, ih, Mark.along_along, Nat.add_comm 1 k]
    cases h : f.broken <;> simp [h]

theorem read_blanks (indent : Int) {n k : Nat} (hn : k ≤ n)
    (h : ∀ x ∈ rest.head?, isBlank x = false ∧ isBreak x = false) :
    read indent n {} ⟨margin k ++ rest, m, b⟩ =
      some ({ blanks := margin k }, ⟨rest, m.along k, b⟩) := by
  obtain ⟨j, rfl⟩ := Nat.exists_eq_add_of_le' hn
  rw [read_margin, read_stop _ _ _ h]
  rfl

theorem read_others (indent : Int) (n : Nat) (f : Fold) (hf : f.broken = true)
    (xs rest : List Char) (hxs : ∀ x ∈ xs, Cursor.IsKept x) :
    ∃ m', m'.column = (if xs = [] then m.column else 0) ∧
      read indent (n + xs.length) f ⟨xs ++ rest, m, true⟩ =
        read indent n { f with others := f.others ++ xs } ⟨rest, m', true⟩ := by
  induction xs generalizing m f with
  | nil => exact ⟨m, rfl, by simp⟩
  | cons x xs ih =>
    rw [List.forall_mem_cons] at hxs
    obtain ⟨m', hm, he⟩ := ih (m := m.below 1) { f with others := f.others ++ [x] } hf hxs.2
    refine ⟨m', ?_, ?_⟩
    · rw [hm]
      split <;> rfl
    · rw [List.length_cons, ← Nat.add_assoc, List.cons_append, read_break _ _ _ hxs.1, if_pos hf,
        he]
      simp

theorem read_breaks (indent : Int) {n k : Nat} {x : Char} {xs : List Char}
    (hx : Cursor.IsKept x) (hxs : ∀ y ∈ xs, Cursor.IsKept y) (hn : (x :: xs).length + k ≤ n)
    (h : ∀ x ∈ rest.head?, isBlank x = false ∧ isBreak x = false) :
    ∃ m', m'.column = k ∧ read indent n {} ⟨x :: xs ++ (margin k ++ rest), m, b⟩ =
      some ({ broken := true, first := [x], others := xs }, ⟨rest, m', true⟩) := by
  obtain ⟨j, rfl⟩ := Nat.exists_eq_add_of_le' hn
  obtain ⟨m', hm, he⟩ := read_others (m := m.below 1) indent (j + k)
    { broken := true, first := [x] } rfl xs (margin k ++ rest) hxs
  refine ⟨m'.along k, ?_, ?_⟩
  · rw [Mark.column_along, hm]
    split <;> exact Nat.zero_add k
  · have hlen : j + ((x :: xs).length + k) = j + k + xs.length + 1 := by
      rw [List.length_cons]
      omega
    rw [hlen, List.cons_append, read_break _ _ _ hx, if_neg (by simp), he, read_margin, if_pos rfl,
      read_stop _ _ _ h, List.nil_append]

theorem read_line (indent : Int) {n k : Nat} (hn : k + 1 ≤ n)
    (h : ∀ x ∈ rest.head?, isBlank x = false ∧ isBreak x = false) :
    ∃ m', m'.column = k ∧ read indent n {} ⟨'\n' :: (margin k ++ rest), m, b⟩ =
      some ({ broken := true, first := ['\n'] }, ⟨rest, m', true⟩) := by
  have hnone : ∀ y ∈ ([] : List Char), Cursor.IsKept y := by simp
  exact read_breaks indent (.inl rfl) hnone (by simpa [Nat.add_comm] using hn) h

end Fold

end FlowPack.Yaml
