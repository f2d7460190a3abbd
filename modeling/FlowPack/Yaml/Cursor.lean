import FlowPack.Yaml.Characters

namespace FlowPack.Yaml

def isBreak (c : Char) : Bool :=
  let n := c.toNat
  n == 10 || n == 13 || n == 0x85 || n == 0x2028 || n == 0x2029

def isBlank (c : Char) : Bool := c == ' ' || c == '\t'

def separates : Option Char → Bool
  | none => true
  | some c => isBlank c || isBreak c

def endsLine : Option Char → Bool
  | none => true
  | some c => isBreak c

/-- The characters of anchors and tag handles. -/
def isWordChar (c : Char) : Bool :=
  ('0' ≤ c && c ≤ '9') || ('A' ≤ c && c ≤ 'Z') || ('a' ≤ c && c ≤ 'z') || c == '_' || c == '-'

def isDigit (c : Char) : Bool := '0' ≤ c && c ≤ '9'

def hexValue? (c : Char) : Option Nat :=
  if '0' ≤ c && c ≤ '9' then some (c.toNat - 48)
  else if 'a' ≤ c && c ≤ 'f' then some (c.toNat - 87)
  else if 'A' ≤ c && c ≤ 'F' then some (c.toNat - 55)
  else none

structure Mark where
  index : Nat := 0
  line : Nat := 0
  column : Nat := 0
  deriving DecidableEq, Repr

structure Cursor where
  rest : List Char
  mark : Mark := {}
  /-- Whether a line ended after the last character that is no blank. -/
  afterBreak : Bool := false
  deriving DecidableEq, Repr

namespace Cursor

def next? (c : Cursor) : Option Char := c.rest.head?

def second? (c : Cursor) : Option Char := c.rest[1]?

def pass (c : Cursor) (run : List Char) : Cursor where
  rest := c.rest.drop run.length
  mark := { c.mark with
    index := c.mark.index + run.length, column := c.mark.column + run.length }
  afterBreak := c.afterBreak && run.all isBlank

def skip (c : Cursor) (n : Nat) : Cursor := c.pass (c.rest.take n)

def span (c : Cursor) (p : Char → Bool) : List Char × Cursor :=
  let run := c.rest.takeWhile p
  (run, c.pass run)

def skipWhile (c : Cursor) (p : Char → Bool) : Cursor := (c.span p).2

def newLine (c : Cursor) (n : Nat) : Cursor where
  rest := c.rest.drop n
  mark := { index := c.mark.index + n, line := c.mark.line + 1, column := 0 }
  afterBreak := true

/-- Take the line break at the cursor. Breaks are read as line feeds, except for the line and
paragraph separators. -/
def takeBreak (c : Cursor) : List Char × Cursor :=
  match c.rest with
  | '\r' :: '\n' :: _ => (['\n'], c.newLine 2)
  | x :: _ =>
    if x.toNat == 0x2028 || x.toNat == 0x2029 then ([x], c.newLine 1)
    else if isBreak x then (['\n'], c.newLine 1)
    else ([], { c with afterBreak := true })
  | [] => ([], { c with afterBreak := true })

def skipBreak (c : Cursor) : Cursor := if endsLine c.next? then c.takeBreak.2 else c

def skipLine (c : Cursor) : Cursor := c.skipWhile fun x => !isBreak x

/-- Pass blanks and line breaks up to an index; `n` bounds the number of steps. -/
def skipTo (index : Nat) : Nat → Cursor → Cursor
  | 0, c => c
  | n + 1, c =>
    if index ≤ c.mark.index then c
    else if endsLine c.next? then skipTo index n c.takeBreak.2
    else skipTo index n (c.skip 1)

/-- Whether one of the marks `---` and `...` stands alone at the start of this line. -/
def atIndicator (c : Cursor) (x : Char) : Bool :=
  c.mark.column == 0 &&
    match c.rest with
    | a :: b :: d :: rest => a == x && b == x && d == x && separates rest.head?
    | _ => false

def atDocumentEdge (c : Cursor) : Bool := c.atIndicator '-' || c.atIndicator '.'

end Cursor

end FlowPack.Yaml
