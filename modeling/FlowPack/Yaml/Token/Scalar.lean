import FlowPack.Yaml.Cursor

namespace FlowPack.Yaml

/-- The blanks and breaks between two words of a scalar. -/
structure Fold where
  blanks : List Char := []
  broken : Bool := false
  first : List Char := []
  others : List Char := []
  deriving DecidableEq, Repr

namespace Fold

def text (f : Fold) : List Char :=
  if f.broken then
    if f.first = ['\n'] then
      if f.others = [] then [' '] else f.others
    else f.first ++ f.others
  else f.blanks

/-- Read a gap. A tab may not stand in the indentation, which is `indent` wide; `n` bounds the
number of steps. -/
def read (indent : Int) : Nat → Fold → Cursor → Option (Fold × Cursor)
  | 0, f, c => some (f, c)
  | n + 1, f, c =>
    match c.next? with
    | none => some (f, c)
    | some x =>
      if isBlank x then
        if f.broken && c.mark.column < indent && x == '\t' then none
        else if f.broken then read indent n f (c.skip 1)
        else read indent n { f with blanks := f.blanks ++ [x] } (c.skip 1)
      else if isBreak x then
        let (b, c) := c.takeBreak
        if f.broken then read indent n { f with others := f.others ++ b } c
        else read indent n { f with blanks := [], broken := true, first := b } c
      else some (f, c)

end Fold

structure ScalarRead where
  text : List Char
  cursor : Cursor
  deriving DecidableEq, Repr

namespace Plain

def word (inFlow : Bool) : List Char → List Char
  | [] => []
  | x :: rest =>
    if isBlank x || isBreak x then []
    else if x == ':' && separates rest.head? then []
    else if inFlow && ",?[]\x7b\x7d".toList.contains x then []
    else x :: word inFlow rest

/-- Words and the gaps between them, after the text read so far and a pending gap; `n` bounds
the number of words. Also tells whether the scalar ended with a line. -/
def words (inFlow : Bool) (indent : Int) : Nat → List Char → Fold → Cursor →
    Option (ScalarRead × Bool)
  | 0, text, gap, c => some (⟨text, c⟩, gap.broken)
  | n + 1, text, gap, c =>
    if c.atDocumentEdge || c.next? == some '#' then some (⟨text, c⟩, gap.broken)
    else
      match word inFlow c.rest with
      | [] => some (⟨text, c⟩, gap.broken)
      | w =>
        let text := text ++ gap.text ++ w
        let c := c.pass w
        match c.next? with
        | none => some (⟨text, c⟩, false)
        | some x =>
          if isBlank x || isBreak x then
            match Fold.read indent (c.rest.length + 1) {} c with
            | none => none
            | some (gap, c) =>
              if !inFlow && c.mark.column < indent then some (⟨text, c⟩, gap.broken)
              else words inFlow indent n text gap c
          else some (⟨text, c⟩, false)

def read (inFlow : Bool) (indent : Int) (c : Cursor) : Option (ScalarRead × Bool) :=
  words inFlow (indent + 1) (c.rest.length + 1) [] {} c

end Plain

namespace Quoted

def code? (digits : List Char) : Option Char :=
  match digits.mapM hexValue? with
  | none => none
  | some ds =>
    let n := ds.foldl (fun acc d => acc * 16 + d) 0
    if (0xD800 ≤ n && n ≤ 0xDFFF) || 0x10FFFF < n then none else some (Char.ofNat n)

def apostrophe : Char := Char.ofNat 39

/-- The character an escape stands for, or the number of code digits after its letter. -/
def escape? (x : Char) : Option (Sum Char Nat) :=
  if x == apostrophe then some (.inl x)
  else match x with
  | '0' => some (.inl (Char.ofNat 0))
  | 'a' => some (.inl (Char.ofNat 7))
  | 'b' => some (.inl (Char.ofNat 8))
  | 't' => some (.inl '\t')
  | '\t' => some (.inl '\t')
  | 'n' => some (.inl '\n')
  | 'v' => some (.inl (Char.ofNat 11))
  | 'f' => some (.inl (Char.ofNat 12))
  | 'r' => some (.inl '\r')
  | 'e' => some (.inl (Char.ofNat 27))
  | ' ' => some (.inl ' ')
  | '"' => some (.inl '"')
  | '\\' => some (.inl '\\')
  | 'N' => some (.inl (Char.ofNat 0x85))
  | '_' => some (.inl (Char.ofNat 0xA0))
  | 'L' => some (.inl (Char.ofNat 0x2028))
  | 'P' => some (.inl (Char.ofNat 0x2029))
  | 'x' => some (.inr 2)
  | 'u' => some (.inr 4)
  | 'U' => some (.inr 8)
  | _ => none

/-- What stands at the cursor in a quoted scalar: one character of it, a break that an escape
removes, or neither. -/
inductive Piece where
  | char (x : Char) (after : Cursor)
  | joined (after : Cursor)
  | none
  deriving DecidableEq, Repr

def piece? (quote : Char) (c : Cursor) : Option Piece :=
  match c.rest with
  | [] => some .none
  | x :: rest =>
    if isBlank x || isBreak x then some .none
    else if x == quote then
      if quote == apostrophe && rest.head? == some quote then some (.char quote (c.skip 2))
      else some .none
    else if quote == '"' && x == '\\' then
      match rest with
      | [] => none
      | y :: digits =>
        if isBreak y then some (.joined (c.skip 1).takeBreak.2)
        else
          match escape? y with
          | none => none
          | some (.inl z) => some (.char z (c.skip 2))
          | some (.inr n) =>
            if digits.length < n then none
            else (code? (digits.take n)).map fun z => .char z (c.skip (n + 2))
    else some (.char x (c.skip 1))

/-- A run of characters without blanks, newest first, and whether an escaped break ended it. -/
def word (quote : Char) : Nat → List Char → Cursor → Option (List Char × Bool × Cursor)
  | 0, acc, c => some (acc, false, c)
  | n + 1, acc, c =>
    match piece? quote c with
    | none => none
    | some .none => some (acc, false, c)
    | some (.char x c) => word quote n (x :: acc) c
    | some (.joined c) => some (acc, true, c)

def words (quote : Char) : Nat → List Char → Cursor → Option ScalarRead
  | 0, _, _ => none
  | n + 1, text, c =>
    if c.atDocumentEdge || c.rest.isEmpty then none
    else
      match word quote (c.rest.length + 1) [] c with
      | none => none
      | some (w, joined, c) =>
        let text := text ++ w.reverse
        if c.next? == some quote then some ⟨text, c.skip 1⟩
        else
          match Fold.read (-1) (c.rest.length + 1) { broken := joined } c with
          | none => none
          | some (gap, c) => words quote n (text ++ gap.text) c

def read (quote : Char) (c : Cursor) : Option ScalarRead :=
  let c := c.skip 1
  words quote (c.rest.length + 1) [] c

end Quoted

end FlowPack.Yaml
