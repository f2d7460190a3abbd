import FlowPack.Json.Basic

namespace FlowPack.Json

def isSpace : Glyph → Bool
  | .char c => c == ' ' || c == '\t' || c == '\n' || c == '\r'
  | .stray _ => false

def skipSpace (t : Text) : Text := t.dropWhile isSpace

def isDigit : Glyph → Bool
  | .char c => '0' ≤ c && c ≤ '9'
  | .stray _ => false

def digits? (t : Text) : Option (Text × Text) :=
  match t.takeWhile isDigit with
  | [] => none
  | ds => some (ds, t.dropWhile isDigit)

def whole? : Text → Option (Text × Text)
  | .char '0' :: rest => some ([.char '0'], rest)
  | t => digits? t

def fraction? : Text → Option (Text × Text)
  | .char '.' :: rest => (digits? rest).map fun (ds, rest) => (.char '.' :: ds, rest)
  | t => some ([], t)

def exponent? : Text → Option (Text × Text)
  | .char e :: rest =>
    if e == 'e' || e == 'E' then
      match rest with
      | .char s :: more =>
        if s == '+' || s == '-' then
          (digits? more).map fun (ds, rest) => (.char e :: .char s :: ds, rest)
        else (digits? rest).map fun (ds, rest) => (.char e :: ds, rest)
      | _ => none
    else some ([], .char e :: rest)
  | t => some ([], t)

def number? (t : Text) : Option (Json × Text) := do
  let (sign, t) := match t with
    | .char '-' :: rest => ([.char '-'], rest)
    | _ => (([] : Text), t)
  let (whole, t) ← whole? t
  let (fraction, t) ← fraction? t
  let (exponent, t) ← exponent? t
  return (.number (sign ++ whole ++ fraction ++ exponent).shown, t)

def hexDigit? : Glyph → Option Nat
  | .char c =>
    if '0' ≤ c && c ≤ '9' then some (c.toNat - 48)
    else if 'a' ≤ c && c ≤ 'f' then some (c.toNat - 87)
    else if 'A' ≤ c && c ≤ 'F' then some (c.toNat - 55)
    else none
  | .stray _ => none

def unit? (a b c d : Glyph) : Option Nat := do
  return (((← hexDigit? a) * 16 + (← hexDigit? b)) * 16 + (← hexDigit? c)) * 16 + (← hexDigit? d)

def isSurrogate (n : Nat) : Bool := 0xD800 ≤ n && n ≤ 0xDFFF

/-- The character of two UTF-16 code units, if they form a pair. -/
def pairChar (high low : Nat) : Char :=
  if 0xD800 ≤ high && high < 0xDC00 && 0xDC00 ≤ low && low < 0xE000 then
    Char.ofNat (0x10000 + (high - 0xD800) * 1024 + (low - 0xDC00))
  else Char.ofNat 0xFFFD

def unitChar (n : Nat) : Char := if isSurrogate n then Char.ofNat 0xFFFD else Char.ofNat n

def escapeChar? (c : Char) : Option Char :=
  match c with
  | '"' => some '"'
  | '\\' => some '\\'
  | '/' => some '/'
  | 'b' => some (Char.ofNat 8)
  | 'f' => some (Char.ofNat 12)
  | 'n' => some '\n'
  | 'r' => some '\r'
  | 't' => some '\t'
  | _ => none

/-- Put a surrogate that stands alone behind the text read so far. -/
def settle (acc : Text) : Option Nat → Text
  | none => acc
  | some n => .char (unitChar n) :: acc

/-- The rest of a string whose opening quote has been read. What was read is in `acc`, last
glyph first; a surrogate escape waits in `pending` for an escape right after it, which it takes
along whether or not the two form a pair. -/
def stringTail (acc : Text) (pending : Option Nat) : Text → Option (Text × Text)
  | [] => none
  | .char '"' :: rest => some ((settle acc pending).reverse, rest)
  | .char '\\' :: .char 'u' :: a :: b :: c :: d :: rest =>
    match unit? a b c d, pending with
    | none, _ => none
    | some n, some high => stringTail (.char (pairChar high n) :: acc) none rest
    | some n, none =>
      if isSurrogate n then stringTail acc (some n) rest
      else stringTail (.char (unitChar n) :: acc) none rest
  | .char '\\' :: .char e :: rest =>
    match escapeChar? e with
    | some c => stringTail (.char c :: settle acc pending) none rest
    | none => none
  | .char c :: rest =>
    if c.toNat < 0x20 || c == '\\' then none
    else stringTail (.char c :: settle acc pending) none rest
  | .stray b :: rest => stringTail (.stray b :: settle acc pending) none rest

def string? (t : Text) : Option (Text × Text) := stringTail [] none t

def word? (w : String) (t : Text) : Option Text :=
  let n := w.length
  if t.take n = Text.ofString w then some (t.drop n) else none

mutual

/-- A value after optional white space. The first argument bounds the nesting and length. -/
def value? : Nat → Text → Option (Json × Text)
  | 0, _ => none
  | fuel + 1, t =>
    match skipSpace t with
    | .char '{' :: rest =>
      match skipSpace rest with
      | .char '}' :: rest => some (.object [], rest)
      | rest => (members? fuel rest).map fun (ms, rest) => (.object ms, rest)
    | .char '[' :: rest =>
      match skipSpace rest with
      | .char ']' :: rest => some (.array [], rest)
      | rest => (items? fuel rest).map fun (vs, rest) => (.array vs, rest)
    | .char '"' :: rest => (string? rest).map fun (s, rest) => (.string s, rest)
    | .char 't' :: rest => (word? "rue" rest).map fun rest => (.bool true, rest)
    | .char 'f' :: rest => (word? "alse" rest).map fun rest => (.bool false, rest)
    | .char 'n' :: rest => (word? "ull" rest).map fun rest => (.null, rest)
    | t => number? t

def items? : Nat → Text → Option (List Json × Text)
  | 0, _ => none
  | fuel + 1, t =>
    match value? fuel t with
    | none => none
    | some (v, rest) =>
      match skipSpace rest with
      | .char ',' :: rest => (items? fuel rest).map fun (vs, rest) => (v :: vs, rest)
      | .char ']' :: rest => some ([v], rest)
      | _ => none

def members? : Nat → Text → Option (List (Text × Json) × Text)
  | 0, _ => none
  | fuel + 1, t =>
    match skipSpace t with
    | .char '"' :: rest =>
      match string? rest with
      | none => none
      | some (k, rest) =>
        match skipSpace rest with
        | .char ':' :: rest =>
          match value? fuel rest with
          | none => none
          | some (v, rest) =>
            match skipSpace rest with
            | .char ',' :: rest => (members? fuel rest).map fun (ms, rest) => ((k, v) :: ms, rest)
            | .char '}' :: rest => some ([(k, v)], rest)
            | _ => none
        | _ => none
    | _ => none

end

def parse? (t : Text) : Option Json :=
  match value? (2 * t.length + 2) t with
  | some (v, rest) => if (skipSpace rest).isEmpty then some v else none
  | none => none

end FlowPack.Json
