import FlowPack.Yaml.Token.Scalar

namespace FlowPack.Yaml.Block

inductive Chomp where
  | clip
  | strip
  | keep
  deriving DecidableEq, Repr

structure Header where
  chomp : Chomp := .clip
  increment : Option Nat := none
  deriving DecidableEq, Repr

def chomp? (c : Cursor) : Option (Chomp × Cursor) :=
  match c.next? with
  | some '+' => some (.keep, c.skip 1)
  | some '-' => some (.strip, c.skip 1)
  | _ => none

def increment? (c : Cursor) : Option (Option Nat × Cursor) :=
  match c.next? with
  | some x =>
    if isDigit x then
      if x == '0' then none else some (some (x.toNat - 48), c.skip 1)
    else some (none, c)
  | none => some (none, c)

/-- The header after its indicator, and the cursor at the next line. -/
def header? (c : Cursor) : Option (Header × Cursor) := do
  let (h, c) ← match chomp? c with
    | some (chomp, c) =>
      (increment? c).map fun (increment, c) => (({ chomp, increment } : Header), c)
    | none =>
      match increment? c with
      | none => none
      | some (none, c) => some (({} : Header), c)
      | some (some k, c) =>
        match chomp? c with
        | some (chomp, c) => some ({ chomp, increment := some k }, c)
        | none => some ({ increment := some k }, c)
  let c := c.skipWhile isBlank
  let c := if c.next? == some '#' then c.skipLine else c
  if endsLine c.next? then return (h, c.skipBreak) else none

def skipIndent (limit : Option Nat) (c : Cursor) : Cursor :=
  let spaces := (c.rest.takeWhile (· == ' ')).length
  match limit with
  | none => c.skip spaces
  | some k => c.skip (min spaces (k - c.mark.column))

/-- Pass empty lines and the indentation of the next line. Gives the breaks, the widest
indentation met and the new cursor; a tab in the indentation is refused. -/
def gap (limit : Option Nat) : Nat → List Char → Nat → Cursor → Option (List Char × Nat × Cursor)
  | 0, breaks, widest, c => some (breaks, widest, c)
  | n + 1, breaks, widest, c =>
    let c := skipIndent limit c
    let widest := max widest c.mark.column
    let short := match limit with
      | none => true
      | some k => decide (c.mark.column < k)
    match c.next? with
    | none => some (breaks, widest, c)
    | some x =>
      if short && x == '\t' then none
      else if isBreak x then
        let (b, c) := c.takeBreak
        gap limit n (breaks ++ b) widest c
      else some (breaks, widest, c)

/-- The text so far, the break that ended the last line and whether that line began with a
blank. -/
structure Lines where
  text : List Char := []
  ended : List Char := []
  indented : Bool := false
  deriving DecidableEq, Repr

def Lines.add (folds : Bool) (l : Lines) (empty : List Char) (line ended : List Char) : Lines :=
  let indented := (line.head?.map isBlank).getD false
  let joint :=
    if folds && !l.indented && !indented && l.ended = ['\n'] then
      if empty = [] then [' '] else []
    else l.ended
  { text := l.text ++ joint ++ empty ++ line, ended, indented }

/-- The lines indented by `indent`; `n` bounds their number. The breaks after the last line
come along. -/
def lines (folds : Bool) (indent : Nat) : Nat → Lines → List Char → Cursor →
    Option (Lines × List Char × Cursor)
  | 0, l, empty, c => some (l, empty, c)
  | n + 1, l, empty, c =>
    if c.mark.column == indent && !c.rest.isEmpty then
      let (line, c) := c.span fun x => !isBreak x
      let (ended, c) := c.takeBreak
      let l := l.add folds empty line ended
      match gap (some indent) (c.rest.length + 1) [] 0 c with
      | none => none
      | some (empty, _, c) => lines folds indent n l empty c
    else some (l, empty, c)

def read (folds : Bool) (indent : Int) (c : Cursor) : Option ScalarRead := do
  let (h, c) ← header? (c.skip 1)
  let given := h.increment.map fun k => (max indent 0).toNat + k
  let (empty, widest, c) ← gap given (c.rest.length + 1) [] 0 c
  let width := given.getD (max (max widest (indent + 1).toNat) 1)
  let (l, empty, c) ← lines folds width (c.rest.length + 1) {} empty c
  let text := match h.chomp with
    | .strip => l.text
    | .clip => l.text ++ l.ended
    | .keep => l.text ++ l.ended ++ empty
  return ⟨text, c⟩

end FlowPack.Yaml.Block
