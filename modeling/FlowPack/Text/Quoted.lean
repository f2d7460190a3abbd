import FlowPack.Text
import FlowPack.Text.Numeral
import FlowPack.Text.Printable

namespace FlowPack.Text

def quotedChar (c : Char) : String :=
  let n := c.toNat
  if c == '"' then "\\\""
  else if c == '\\' then "\\\\"
  else if isPrintable c then c.toString
  else if n == 7 then "\\a"
  else if n == 8 then "\\b"
  else if n == 12 then "\\f"
  else if n == 10 then "\\n"
  else if n == 13 then "\\r"
  else if n == 9 then "\\t"
  else if n == 11 then "\\v"
  else if n < 0x20 || n == 0x7F then "\\x" ++ Numeral.hexLower 2 n
  else if n < 0x10000 then "\\u" ++ Numeral.hexLower 4 n
  else "\\U" ++ Numeral.hexLower 8 n

def quotedGlyph : Glyph → String
  | .char c => quotedChar c
  | .stray b => "\\x" ++ Numeral.hexLower 2 b.toNat

def quoted (t : Text) : String :=
  "\"" ++ String.join (t.map quotedGlyph) ++ "\""

end FlowPack.Text
