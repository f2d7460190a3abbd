import FlowPack.Bytes

namespace FlowPack

inductive Glyph where
  | char (c : Char)
  | stray (b : UInt8)
  deriving DecidableEq, Repr

abbrev Text := List Glyph

namespace Utf8

def isTail (b : UInt8) : Bool := 0x80 ≤ b && b ≤ 0xBF

def tailBits (b : UInt8) : Nat := b.toNat % 64

/-- The character encoded at the front of a byte string and the number of its bytes. Overlong
forms, surrogates and values above the last code point encode nothing. -/
def front? : Bytes → Option (Char × Nat)
  | [] => none
  | a :: rest =>
    let n := a.toNat
    if n < 0x80 then some (Char.ofNat n, 1)
    else if 0xC2 ≤ n && n ≤ 0xDF then
      match rest with
      | b :: _ => if isTail b then some (Char.ofNat ((n - 0xC0) * 64 + tailBits b), 2) else none
      | _ => none
    else if 0xE0 ≤ n && n ≤ 0xEF then
      match rest with
      | b :: c :: _ =>
        let v := (n - 0xE0) * 4096 + tailBits b * 64 + tailBits c
        if isTail b && isTail c && 0x800 ≤ v && !(0xD800 ≤ v && v ≤ 0xDFFF)
        then some (Char.ofNat v, 3) else none
      | _ => none
    else if 0xF0 ≤ n && n ≤ 0xF4 then
      match rest with
      | b :: c :: d :: _ =>
        let v := (n - 0xF0) * 262144 + tailBits b * 4096 + tailBits c * 64 + tailBits d
        if isTail b && isTail c && isTail d && 0x10000 ≤ v && v ≤ 0x10FFFF
        then some (Char.ofNat v, 4) else none
      | _ => none
    else none

def encode (c : Char) : Bytes :=
  let n := c.toNat
  if n < 0x80 then [n.toUInt8]
  else if n < 0x800 then [(0xC0 + n / 64).toUInt8, (0x80 + n % 64).toUInt8]
  else if n < 0x10000 then
    [(0xE0 + n / 4096).toUInt8, (0x80 + n / 64 % 64).toUInt8, (0x80 + n % 64).toUInt8]
  else
    [(0xF0 + n / 262144).toUInt8, (0x80 + n / 4096 % 64).toUInt8, (0x80 + n / 64 % 64).toUInt8,
      (0x80 + n % 64).toUInt8]

end Utf8

namespace Glyph

def bytes : Glyph → Bytes
  | char c => Utf8.encode c
  | stray b => [b]

def shown : Glyph → Char
  | char c => c
  | stray _ => Char.ofNat 0xFFFD

end Glyph

namespace Text

def ofString (s : String) : Text := s.toList.map .char

def ofBytes : Bytes → Text
  | [] => []
  | b :: rest =>
    match Utf8.front? (b :: rest) with
    | some (c, n) => .char c :: ofBytes (rest.drop (n - 1))
    | none => .stray b :: ofBytes rest
termination_by data => data.length
decreasing_by
  all_goals simp only [List.length_drop, List.length_cons]
  all_goals omega

def bytes (t : Text) : Bytes := t.flatMap Glyph.bytes

def shown (t : Text) : String := String.ofList (t.map Glyph.shown)

/-- White space in the sense of the Unicode property. -/
def isBlank (c : Char) : Bool :=
  let n := c.toNat
  (9 ≤ n && n ≤ 13) || n == 0x20 || n == 0x85 || n == 0xA0 || n == 0x1680 ||
    (0x2000 ≤ n && n ≤ 0x200A) || n == 0x2028 || n == 0x2029 || n == 0x202F || n == 0x205F ||
    n == 0x3000

def isBlankGlyph : Glyph → Bool
  | .char c => isBlank c
  | .stray _ => false

def trim (t : Text) : Text :=
  ((t.dropWhile isBlankGlyph).reverse.dropWhile isBlankGlyph).reverse

/-- Lower case of the characters whose lower case is an ASCII letter; the dotted capital I and
the Kelvin sign are among them. All others stay. -/
def lower (c : Char) : Char :=
  if 'A' ≤ c && c ≤ 'Z' then Char.ofNat (c.toNat + 32)
  else if c.toNat == 0x130 then 'i'
  else if c.toNat == 0x212A then 'k'
  else c

/-- The word a text spells when case is ignored, if it spells one without stray bytes. -/
def word? (t : Text) : Option String :=
  let letter : Glyph → Option Char
    | .char c => some (lower c)
    | .stray _ => none
  (t.mapM letter).map String.ofList

end Text

def utf8 (s : String) : Bytes := s.toUTF8.data.toList

end FlowPack
