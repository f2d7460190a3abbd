import FlowPack.Journal.Value
import FlowPack.Text.Quoted

namespace FlowPack.Journal.Template

structure Spec where
  sharp : Bool := false
  zero : Bool := false
  plus : Bool := false
  minus : Bool := false
  space : Bool := false
  literal : Bool := false
  width : Option Nat := none
  precision : Option Nat := none
  deriving DecidableEq, Repr

def Spec.padWith (spec : Spec) (filler : Char) (s : List Char) : List Char :=
  match spec.width with
  | none => s
  | some w =>
    let fill := List.replicate (w - s.length) filler
    if spec.minus then s ++ fill else fill ++ s

def Spec.filler (spec : Spec) : Char := if spec.zero then '0' else ' '

def Spec.pad (spec : Spec) (s : List Char) : List Char := spec.padWith spec.filler s

def Spec.cut (spec : Spec) (s : List Char) : List Char :=
  match spec.precision with
  | none => s
  | some p => s.take p

def backquote : Char := Char.ofNat 0x60

def canBackquote (s : List Char) : Bool :=
  s.all fun c =>
    let n := c.toNat
    !(n == 0xFEFF || (n < 0x20 && n != 9) || n == 0x60 || n == 0x7F)

def asciiQuotedChar (c : Char) : String :=
  let n := c.toNat
  if n < 0x80 then Text.quotedChar c
  else if n < 0x10000 then "\\u" ++ Numeral.hexLower 4 n
  else "\\U" ++ Numeral.hexLower 8 n

def quoteText (spec : Spec) (s : List Char) : List Char :=
  let s := spec.cut s
  if spec.sharp && canBackquote s then spec.pad (backquote :: s ++ [backquote])
  else
    let inner := if spec.plus then s.map asciiQuotedChar else s.map Text.quotedChar
    spec.pad ('"' :: (String.join inner).toList ++ ['"'])

def quoteChar (spec : Spec) (c : Char) : List Char :=
  let inner :=
    if c == '\'' then "\\'"
    else if c == '"' then "\""
    else if spec.plus then asciiQuotedChar c
    else Text.quotedChar c
  spec.pad ('\'' :: inner.toList ++ ['\''])

def hexText (spec : Spec) (upper : Bool) (s : List Char) : List Char :=
  let data := utf8 (String.ofList s)
  let data := match spec.precision with
    | none => data
    | some p => data.take p
  let lead := if upper then ['0', 'X'] else ['0', 'x']
  let pair (b : UInt8) : List Char := Numeral.zeroFill 2 (Numeral.digits 16 upper b.toNat)
  let body : List Char :=
    match data with
    | [] => []
    | _ =>
      if spec.space then
        let items := data.map fun b => if spec.sharp then lead ++ pair b else pair b
        (items.intersperse [' ']).flatten
      else (if spec.sharp then lead else []) ++ data.flatMap pair
  spec.pad body

def formatInt (spec : Spec) (base : Nat) (upper marked : Bool) (n : Int) : List Char :=
  if spec.precision = some 0 && n == 0 then spec.padWith ' ' []
  else
    let signed := n < 0 || spec.plus || spec.space
    let least :=
      match spec.precision, spec.width with
      | some p, _ => p
      | none, some w => if spec.zero then (if signed then w - 1 else w) else 0
      | none, none => 0
    let ds := Numeral.zeroFill least (Numeral.digits base upper n.natAbs)
    let ds :=
      if !spec.sharp then ds
      else if base == 2 then '0' :: 'b' :: ds
      else if base == 8 then (if ds.head? == some '0' then ds else '0' :: ds)
      else if base == 16 then '0' :: (if upper then 'X' else 'x') :: ds
      else ds
    let ds := if marked then '0' :: 'o' :: ds else ds
    let ds :=
      if n < 0 then '-' :: ds
      else if spec.plus then '+' :: ds
      else if spec.space then ' ' :: ds
      else ds
    spec.padWith ' ' ds

/-- The character with a number; numbers of no character give the replacement character. -/
def charOf (n : Int) : Char :=
  if 0 ≤ n && n ≤ 0x10FFFF && !(0xD800 ≤ n && n ≤ 0xDFFF) then Char.ofNat n.toNat
  else Char.ofNat 0xFFFD

def formatCodePoint (spec : Spec) (n : Int) : List Char :=
  let u := (n % 18446744073709551616).toNat
  let least := max 4 (spec.precision.getD 4)
  let shown :=
    if spec.sharp && u ≤ 0x10FFFF && !(0xD800 ≤ u && u ≤ 0xDFFF) &&
        Text.isPrintable (Char.ofNat u) then
      [' ', '\'', Char.ofNat u, '\'']
    else []
  spec.padWith ' ' ('U' :: '+' :: Numeral.zeroFill least (Numeral.digits 16 true u) ++ shown)

def typeName : Value → String
  | .text _ => "string"
  | .int _ => "int"
  | .bool _ => "bool"
  | .null => "<nil>"

def general (spec : Spec) : Value → List Char
  | .text s => if spec.literal then quoteText spec s.toList else spec.pad (spec.cut s.toList)
  | .int n => formatInt spec 10 false false n
  | .bool b => spec.pad (Value.bool b).shown.toList
  | .null => spec.pad Value.null.shown.toList

def misfit (spec : Spec) (verb : Char) (v : Value) : List Char :=
  let inner :=
    match v with
    | .null => "<nil>".toList
    | _ => (typeName v).toList ++ '=' :: general spec v
  '%' :: '!' :: verb :: '(' :: inner ++ [')']

def formatText (spec : Spec) (verb : Char) (s : String) : List Char :=
  match verb with
  | 'v' => general spec (.text s)
  | 's' => spec.pad (spec.cut s.toList)
  | 'x' => hexText spec false s.toList
  | 'X' => hexText spec true s.toList
  | 'q' => quoteText spec s.toList
  | _ => misfit spec verb (.text s)

def formatNumber (spec : Spec) (verb : Char) (n : Int) : List Char :=
  match verb with
  | 'v' => formatInt spec 10 false false n
  | 'd' => formatInt spec 10 false false n
  | 'b' => formatInt spec 2 false false n
  | 'o' => formatInt spec 8 false false n
  | 'O' => formatInt spec 8 false true n
  | 'x' => formatInt spec 16 false false n
  | 'X' => formatInt spec 16 true false n
  | 'c' => spec.pad [charOf n]
  | 'q' => quoteChar spec (charOf n)
  | 'U' => formatCodePoint spec n
  | _ => misfit spec verb (.int n)

def formatValue (spec : Spec) (verb : Char) (v : Value) : List Char :=
  match v with
  | .null => if verb == 'v' || verb == 'T' then spec.pad Value.null.shown.toList
    else misfit spec verb v
  | _ =>
    if verb == 'T' then spec.pad (spec.cut (typeName v).toList)
    else match v with
    | .text s => formatText spec verb s
    | .int n => formatNumber spec verb n
    | .bool b => if verb == 't' || verb == 'v' then spec.pad (Value.bool b).shown.toList
      else misfit spec verb v
    | .null => []

/-- Where the reading of a template stands. -/
structure Place where
  rest : List Char
  next : Nat
  picked : Bool
  good : Bool
  justPicked : Bool
  deriving DecidableEq, Repr

/-- Numbers above a million are not read on. -/
def tooLarge (n : Nat) : Bool := n > 1000000

def number (acc : Nat) (seen : Bool) : List Char → Option Nat × List Char
  | [] => (if seen then some acc else none, [])
  | c :: rest =>
    if c.isDigit then
      if tooLarge acc then (none, []) else number (acc * 10 + (c.toNat - 48)) true rest
    else (if seen then some acc else none, c :: rest)

def pickNumber? (inside : List Char) : Option Nat :=
  match number 0 false inside with
  | (some n, []) => if inside.all Char.isDigit then some n else none
  | _ => none

/-- Read a pick such as `[2]` if there is one. -/
def readPick (count : Nat) (p : Place) : Place :=
  match p.rest with
  | '[' :: rest =>
    let inside := rest.takeWhile (· != ']')
    match rest.dropWhile (· != ']') with
    | [] => { p with rest, picked := true, good := false, justPicked := false }
    | _ :: after =>
      match pickNumber? inside with
      | none => { p with rest := after, picked := true, good := false, justPicked := false }
      | some n =>
        if 1 ≤ n && n ≤ count then
          { p with rest := after, next := n - 1, picked := true, justPicked := true }
        else { p with rest := after, picked := true, good := false, justPicked := true }
  | _ => { p with justPicked := false }

def readFlags (spec : Spec) : List Char → Spec × List Char
  | '#' :: rest => readFlags { spec with sharp := true } rest
  | '0' :: rest => readFlags { spec with zero := !spec.minus } rest
  | '+' :: rest => readFlags { spec with plus := true } rest
  | '-' :: rest => readFlags { spec with minus := true, zero := false } rest
  | ' ' :: rest => readFlags { spec with space := true } rest
  | rest => (spec, rest)

def starNumber (args : List Value) (next : Nat) : Option Int × Nat :=
  match args[next]? with
  | none => (none, next)
  | some (.int n) => (if n.natAbs > 1000000 then none else some n, next + 1)
  | some _ => (none, next + 1)

def readWidth (args : List Value) (spec : Spec) (p : Place) : Spec × Place × String :=
  match p.rest with
  | '*' :: rest =>
    let (n, next) := starNumber args p.next
    let p := { p with rest, next, justPicked := false }
    match n with
    | none => (spec, p, "%!(BADWIDTH)")
    | some n =>
      let spec := { spec with width := some n.natAbs }
      (if n < 0 then { spec with minus := true, zero := false } else spec, p, "")
  | rest =>
    let (n, after) := number 0 false rest
    ({ spec with width := n },
      { p with rest := after, good := p.good && !(p.justPicked && n.isSome) }, "")

def readPrecision (args : List Value) (spec : Spec) (p : Place) : Spec × Place × String :=
  match p.rest with
  | '.' :: rest =>
    let p := readPick args.length { p with rest, good := p.good && !p.justPicked }
    match p.rest with
    | '*' :: rest =>
      let (n, next) := starNumber args p.next
      let p := { p with rest, next, justPicked := false }
      match n with
      | some n =>
        if n < 0 then (spec, p, "%!(BADPREC)")
        else ({ spec with precision := some n.toNat }, p, "")
      | none => (spec, p, "%!(BADPREC)")
    | rest =>
      let (n, after) := number 0 false rest
      ({ spec with precision := some (n.getD 0) }, { p with rest := after }, "")
  | _ => (spec, p, "")

def directive (args : List Value) (p : Place) : List Char × Place :=
  let (spec, rest) := readFlags {} p.rest
  let p := readPick args.length { p with rest, good := true, justPicked := false }
  let (spec, p, widthComplaint) := readWidth args spec p
  let (spec, p, precisionComplaint) := readPrecision args spec p
  let p := if p.justPicked then p else readPick args.length p
  let lead := widthComplaint.toList ++ precisionComplaint.toList
  match p.rest with
  | [] => (lead ++ "%!(NOVERB)".toList, p)
  | verb :: rest =>
    let p := { p with rest }
    if verb == '%' then (lead ++ ['%'], p)
    else if !p.good then (lead ++ '%' :: '!' :: verb :: "(BADINDEX)".toList, p)
    else match args[p.next]? with
    | none => (lead ++ '%' :: '!' :: verb :: "(MISSING)".toList, p)
    | some v =>
      let spec :=
        if verb == 'v' || verb == 'w' then
          { spec with literal := spec.sharp, sharp := false, plus := false }
        else spec
      (lead ++ formatValue spec verb v, { p with next := p.next + 1 })

def unused (args : List Value) : List Char :=
  let item (v : Value) : String :=
    match v with
    | .null => v.shown
    | _ => typeName v ++ "=" ++ v.shown
  ("%!(EXTRA " ++ ", ".intercalate (args.map item) ++ ")").toList

def fillFrom (args : List Value) : Nat → Place → List Char
  -- Every round takes at least one character, so this is never reached.
  | 0, _ => []
  | fuel + 1, p =>
    match p.rest with
    | [] => if !p.picked && p.next < args.length then unused (args.drop p.next) else []
    | '%' :: rest =>
      let (out, p) := directive args { p with rest }
      out ++ fillFrom args fuel p
    | c :: rest => c :: fillFrom args fuel { p with rest }

/-- Fill in a template. Without arguments the template is copied as it is. -/
def fill (template : String) (args : List Value) : String :=
  if args.isEmpty then template
  else
    let cs := template.toList
    String.ofList (fillFrom args (cs.length + 1) ⟨cs, 0, false, true, false⟩)

end FlowPack.Journal.Template
