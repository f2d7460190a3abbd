import FlowPack.Json.Basic
import FlowPack.Text.Numeral

namespace FlowPack.Json

def unicodeEscape (n : Nat) : String := "\\u" ++ Numeral.hexLower 4 n

def quotedChar (c : Char) : String :=
  let n := c.toNat
  if c == '"' then "\\\""
  else if c == '\\' then "\\\\"
  else if n == 10 then "\\n"
  else if n == 13 then "\\r"
  else if n == 9 then "\\t"
  else if n < 0x20 || c == '<' || c == '>' || c == '&' || n == 0x2028 || n == 0x2029 then
    unicodeEscape n
  else c.toString

def quotedGlyph : Glyph → String
  | .char c => quotedChar c
  | .stray _ => unicodeEscape 0xFFFD

def quoted (t : Text) : String := "\"" ++ String.join (t.map quotedGlyph) ++ "\""

/-- How the parts of a value are laid out. -/
structure Layout where
  lineBreak : Nat → String
  afterColon : String

def compact : Layout := ⟨fun _ => "", ""⟩

def indented : Layout := ⟨fun depth => "\n" ++ "".pushn ' ' (2 * depth), " "⟩

def bracketed (lay : Layout) (depth : Nat) (left right : String) (parts : List String) : String :=
  if parts.isEmpty then left ++ right
  else
    let line := lay.lineBreak (depth + 1)
    left ++ line ++ String.intercalate ("," ++ line) parts ++ lay.lineBreak depth ++ right

mutual

def render (lay : Layout) (depth : Nat) : Json → String
  | null => "null"
  | bool b => if b then "true" else "false"
  | number literal => literal
  | string t => quoted t
  | array items => bracketed lay depth "[" "]" (renderItems lay (depth + 1) items)
  | object members => bracketed lay depth "\x7b" "\x7d" (renderMembers lay (depth + 1) members)

def renderItems (lay : Layout) (depth : Nat) : List Json → List String
  | [] => []
  | j :: rest => render lay depth j :: renderItems lay depth rest

def renderMembers (lay : Layout) (depth : Nat) : List (Text × Json) → List String
  | [] => []
  | (k, j) :: rest =>
    (quoted k ++ ":" ++ lay.afterColon ++ render lay depth j) :: renderMembers lay depth rest

end

end FlowPack.Json
