import FlowPack.Text
import FlowPack.Text.Width

namespace FlowPack.Report

inductive Align where
  | natural
  | left
  | center
  | right
  deriving DecidableEq, Repr

structure Column where
  body : Align := .natural
  header : Align := .natural
  deriving DecidableEq, Repr

inductive Cell where
  | text (s : String)
  | number (n : Nat)
  deriving DecidableEq, Repr

structure Grid where
  title : String := ""
  header : List String := []
  rows : List (List Cell)
  footer : List Cell := []
  columns : List Column := []
  deriving DecidableEq, Repr

abbrev Line := List Char

namespace Cell

/-- Tabs count four columns, carriage returns are dropped. -/
def tidy (s : String) : Line :=
  s.toList.flatMap fun c =>
    if c == '\t' then [' ', ' ', ' ', ' '] else if c == '\r' then [] else [c]

def content : Cell → Line
  | text s => tidy s
  | number n => (toString n).toList

def isNumber : Cell → Bool
  | number _ => true
  | text _ => false

end Cell

def lines : List Char → List Line
  | [] => [[]]
  | c :: rest =>
    if c == '\n' then [] :: lines rest
    else
      match lines rest with
      | [] => [[c]]
      | l :: ls => (c :: l) :: ls

/-- Break a text after every `width` characters of a line; `used` of them are on the current
line already. -/
def wrapFrom (width : Nat) : Nat → List Char → List Char
  | _, [] => []
  | used, c :: rest =>
    if c == '\n' then '\n' :: wrapFrom width 0 rest
    else if used == width then '\n' :: c :: wrapFrom width 1 rest
    else c :: wrapFrom width (used + 1) rest

def wrapped (width : Nat) (cs : List Char) : List Line :=
  if width = 0 then [[]] else lines (wrapFrom width 0 cs)

def widest (cs : List Char) : Nat := ((lines cs).map Text.width).foldl max 0

def spaces (n : Nat) : Line := List.replicate n ' '

def dropSpaces (cs : Line) : Line := cs.dropWhile (· == ' ')

def dropEndSpaces (cs : Line) : Line := (dropSpaces cs.reverse).reverse

/-- Fill a line up to a width. An odd space in the middle goes to the left. -/
def Align.apply (a : Align) (width : Nat) (cs : Line) : Line :=
  match a with
  | .center =>
    let cs := dropEndSpaces (dropSpaces cs)
    let free := width - Text.width cs
    spaces (free - free / 2) ++ cs ++ spaces (free / 2)
  | .right =>
    let cs := dropSpaces cs
    spaces (width - Text.width cs) ++ cs
  | _ =>
    let cs := dropEndSpaces cs
    cs ++ spaces (width - Text.width cs)

namespace Grid

def allRows (g : Grid) : List (List Line) :=
  (if g.header.isEmpty then [] else [g.header.map Cell.tidy]) ++
    g.rows.map (·.map Cell.content) ++
    (if g.footer.isEmpty then [] else [g.footer.map Cell.content])

def columnCount (g : Grid) : Nat := (g.allRows.map List.length).foldl max 0

def cellAt (row : List Line) (i : Nat) : Line := row[i]?.getD []

def widths (g : Grid) : List Nat :=
  (List.range g.columnCount).map fun i =>
    (g.allRows.map fun row => widest (cellAt row i)).foldl max 0

def isNumeric (g : Grid) (i : Nat) : Bool :=
  g.rows.all fun row =>
    match row[i]? with
    | some cell => cell.isNumber
    | none => true

def resolved (g : Grid) (i : Nat) (a : Align) : Align :=
  if a = .natural then (if g.isNumeric i then .right else .left) else a

def bodyAligns (g : Grid) : List Align :=
  (List.range g.columnCount).map fun i => g.resolved i (g.columns[i]?.getD {}).body

def headerAligns (g : Grid) : List Align :=
  (List.range g.columnCount).map fun i => g.resolved i (g.columns[i]?.getD {}).header

def footerAligns (g : Grid) : List Align :=
  (List.range g.columnCount).map fun i => g.resolved i .natural

def drawLine (widths : List Nat) (aligns : List Align) (cells : List Line) : Line :=
  let drawn := (widths.zip aligns).zipIdx.map fun ((w, a), i) =>
    ' ' :: a.apply w (cellAt cells i) ++ [' ']
  '|' :: (drawn.map (· ++ ['|'])).flatten

def drawRow (widths : List Nat) (aligns : List Align) (cells : List Line) : List Line :=
  let parts := widths.zipIdx.map fun (w, i) => wrapped w (cellAt cells i)
  let height := (parts.map List.length).foldl max 1
  if height = 1 then [drawLine widths aligns cells]
  else
    (List.range height).map fun k => drawLine widths aligns (parts.map fun ls => ls[k]?.getD [])

def rule (widths : List Nat) : Line :=
  '+' :: (widths.map fun w => List.replicate (w + 2) '-' ++ ['+']).flatten

def innerWidth (widths : List Nat) : Nat := widths.foldl (fun n w => n + w + 3) 0 - 3

def drawTitle (widths : List Nat) (title : String) : List Line :=
  if title = "" then []
  else
    let inner := innerWidth widths
    let trim (cs : Line) : Line :=
      ((cs.dropWhile Text.isBlank).reverse.dropWhile Text.isBlank).reverse
    ('+' :: List.replicate (inner + 2) '-' ++ ['+']) ::
      (wrapped inner title.toList).map fun cs =>
        '|' :: ' ' :: Align.left.apply inner (trim cs) ++ [' ', '|']

def upper (cs : Line) : Line := cs.map Char.toUpper

def draw (g : Grid) : List Line :=
  let ws := g.widths
  let header := if g.header.isEmpty then []
    else drawRow ws g.headerAligns (g.header.map fun s => upper (Cell.tidy s)) ++ [rule ws]
  let footer := if g.footer.isEmpty then []
    else rule ws :: drawRow ws g.footerAligns (g.footer.map fun c => upper c.content)
  drawTitle ws g.title ++ [rule ws] ++ header ++
    g.rows.flatMap (fun row => drawRow ws g.bodyAligns (row.map Cell.content)) ++
    footer ++ [rule ws]

def render (g : Grid) : String := String.ofList (g.draw.flatMap fun l => l ++ ['\n'])

end Grid

end FlowPack.Report
