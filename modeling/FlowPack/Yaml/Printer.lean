import FlowPack.Text.Numeral
import FlowPack.Yaml.Scalar

namespace FlowPack.Yaml.Printer

def step : Nat := 4

def isShowable (c : Char) : Bool :=
  let n := c.toNat
  n == 10 || (0x20 ≤ n && n ≤ 0x7E) || (0xA0 ≤ n && n ≤ 0xFFFD && n != 0xFEFF)

/-- What the characters of a string rule out. -/
structure Traits where
  indicators : Bool := false
  breaks : Bool := false
  unshowable : Bool := false
  tabs : Bool := false
  edgeSpace : Bool := false
  endSpace : Bool := false
  edgeBreak : Bool := false
  spaceAfterBreak : Bool := false
  spaceBeforeBreak : Bool := false
  deriving DecidableEq, Repr

/-- Whether a character between its neighbours would be taken for an indicator. -/
def indicates (before : Option Char) (c : Char) (after : Option Char) : Bool :=
  let gapAfter := (after.map isBlank).getD true
  match before with
  | none =>
    if c == '?' || c == ':' || c == '-' then gapAfter
    else "#,[]\x7b\x7d&*!|>\"%@".toList.contains c || c.toNat == 39 || c.toNat == 0x60
  | some b => (c == ':' && gapAfter) || (c == '#' && separates (some b))

/-- The traits of the rest of a string, given the character before it. -/
def traitsFrom : Option Char → List Char → Traits
  | _, [] => {}
  | before, c :: rest =>
    let t := traitsFrom (some c) rest
    { indicators := t.indicators || indicates before c rest.head?
      breaks := t.breaks || isBreak c
      unshowable := t.unshowable || (c != '\t' && !isShowable c)
      tabs := t.tabs || c == '\t'
      edgeSpace := t.edgeSpace || (c == ' ' && (before.isNone || rest.isEmpty))
      endSpace := t.endSpace || (c == ' ' && rest.isEmpty)
      edgeBreak := t.edgeBreak || (isBreak c && (before.isNone || rest.isEmpty))
      spaceAfterBreak := t.spaceAfterBreak || (c == ' ' && (before.map isBreak).getD false)
      spaceBeforeBreak := t.spaceBeforeBreak || (isBreak c && before == some ' ') }

def traits (cs : List Char) : Traits :=
  let t := traitsFrom none cs
  let edge := ['-', '-', '-'].isPrefixOf cs || ['.', '.', '.'].isPrefixOf cs
  { t with indicators := t.indicators || edge }

namespace Traits

def allowsPlain (t : Traits) : Bool :=
  !(t.indicators || t.breaks || t.unshowable || t.tabs || t.edgeSpace || t.edgeBreak ||
    t.spaceAfterBreak || t.spaceBeforeBreak)

def allowsSingle (t : Traits) : Bool :=
  !(t.spaceAfterBreak || t.spaceBeforeBreak || t.tabs || t.unshowable)

def allowsBlock (t : Traits) : Bool := !(t.endSpace || t.spaceBeforeBreak || t.unshowable)

end Traits

def colonParts : List Char → List (List Char)
  | [] => [[]]
  | c :: rest =>
    if c == ':' then [] :: colonParts rest
    else
      match colonParts rest with
      | [] => [[c]]
      | p :: ps => (c :: p) :: ps

def isSixtieth : List Char → Bool
  | [d] => isDigit d
  | [t, d] => '0' ≤ t && t ≤ '5' && isDigit d
  | _ => false

/-- Numbers with colons, which some readers take for base sixty. -/
def isSexagesimal (cs : List Char) : Bool :=
  let (_, cs) := splitSign cs
  let isFill (c : Char) : Bool := isDigit c || c == '_'
  let tail := (cs.dropWhile (· != '.')).drop 1
  match colonParts (cs.takeWhile (· != '.')) with
  | (d :: first) :: part :: parts =>
    isDigit d && first.all isFill && (part :: parts).all isSixtieth && tail.all isFill
  | _ => false

def oldBools : List String :=
  ["y", "Y", "yes", "Yes", "YES", "on", "On", "ON", "n", "N", "no", "No", "NO", "off", "Off",
    "OFF"]

/-- Whether a plain spelling reads back as a string. -/
def readsAsString (cs : List Char) : Bool :=
  (Scalar.ofPlain true cs).tag == Tag.str && !isSexagesimal cs &&
    !oldBools.contains (String.ofList cs)

def escaped (c : Char) : List Char :=
  let n := c.toNat
  if isShowable c && !isBreak c && c != '"' && c != '\\' then [c]
  else
    let name : Option Char :=
      if n == 0 then some '0'
      else if n == 7 then some 'a'
      else if n == 8 then some 'b'
      else if n == 9 then some 't'
      else if n == 10 then some 'n'
      else if n == 11 then some 'v'
      else if n == 12 then some 'f'
      else if n == 13 then some 'r'
      else if n == 27 then some 'e'
      else if c == '"' || c == '\\' then some c
      else if n == 0x85 then some 'N'
      else if n == 0x2028 then some 'L'
      else if n == 0x2029 then some 'P'
      else none
    match name with
    | some x => ['\\', x]
    | none =>
      let digits (width : Nat) : List Char := Numeral.zeroFill width (Numeral.digits 16 true n)
      if n ≤ 0xFF then '\\' :: 'x' :: digits 2
      else if n ≤ 0xFFFF then '\\' :: 'u' :: digits 4
      else '\\' :: 'U' :: digits 8

def double (cs : List Char) : List Char := '"' :: cs.flatMap escaped ++ ['"']

def margin (width : Nat) : List Char := List.replicate width ' '

/-- Text between single quotes. After a line separator the next line is indented. -/
def singleFrom (width : Nat) : Bool → List Char → List Char
  | _, [] => []
  | afterBreak, c :: rest =>
    if isBreak c then c :: singleFrom width true rest
    else
      (if afterBreak then margin width else []) ++
        (if c.toNat == 39 then [c, c] else [c]) ++ singleFrom width false rest

def single (width : Nat) (cs : List Char) : List Char :=
  let quote := Char.ofNat 39
  quote :: singleFrom width false cs ++ [quote]

/-- The lines of a literal block. Its first line break ends the header. -/
def blockFrom (width : Nat) : Bool → List Char → List Char
  | _, [] => []
  | lineStart, c :: rest =>
    if isBreak c then c :: blockFrom width true rest
    else (if lineStart then margin width else []) ++ c :: blockFrom width false rest

def blockMarks (cs : List Char) : List Char :=
  let opens := (cs.head?.map fun c => c == ' ' || isBreak c).getD false
  let chomp := match cs.reverse with
    | [] => ['-']
    | [last] => if isBreak last then ['+'] else ['-']
    | last :: before :: _ =>
      if !isBreak last then ['-'] else if isBreak before then ['+'] else []
  (if opens then (toString step).toList else []) ++ chomp

def literal (width : Nat) (cs : List Char) : List Char :=
  let body := match cs with
    | c :: _ => if isBreak c then blockFrom width true cs else '\n' :: blockFrom width true cs
    | [] => []
  '|' :: blockMarks cs ++ body

def endsWithBreak (cs : List Char) : Bool := (cs.getLast?.map isBreak).getD false

/-- A string as the value of a key, with the break after it. Its continuation lines are
indented by `width`. -/
def string (width : Nat) (mayBePlain : Bool) (cs : List Char) : List Char :=
  let t := traits cs
  if cs.contains '\n' then
    if t.allowsBlock then
      literal width cs ++ if endsWithBreak cs then [] else ['\n']
    else double cs ++ ['\n']
  else if mayBePlain then
    (if t.allowsPlain then cs else if t.allowsSingle then single width cs else double cs) ++ ['\n']
  else double cs ++ ['\n']

def base64Lines (data : Bytes) : List Char :=
  let cs := Base64.encode data
  let lines := cs.length / 70 + 1
  if lines = 1 then cs
  else (List.range ((cs.length + 69) / 70)).flatMap fun i => (cs.drop (70 * i)).take 70 ++ ['\n']

def chars? : Text → Option (List Char)
  | [] => some []
  | .char c :: rest => (chars? rest).map (c :: ·)
  | .stray _ :: _ => none

def text (width : Nat) (t : Text) : List Char :=
  match chars? t with
  | some cs => string width (readsAsString cs) cs
  | none => "!!binary ".toList ++ string width true (base64Lines t.bytes)

end FlowPack.Yaml.Printer
