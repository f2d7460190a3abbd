import FlowPack.Bytes

namespace FlowPack.Base64

def digit (n : Nat) : Char :=
  if n < 26 then Char.ofNat (65 + n)
  else if n < 52 then Char.ofNat (71 + n)
  else if n < 62 then Char.ofNat (n - 4)
  else if n == 62 then '+' else '/'

def value? (c : Char) : Option Nat :=
  if 'A' ≤ c && c ≤ 'Z' then some (c.toNat - 65)
  else if 'a' ≤ c && c ≤ 'z' then some (c.toNat - 71)
  else if '0' ≤ c && c ≤ '9' then some (c.toNat + 4)
  else if c == '+' then some 62
  else if c == '/' then some 63
  else none

def encode : Bytes → List Char
  | [] => []
  | [a] => [digit (a.toNat / 4), digit (a.toNat % 4 * 16), '=', '=']
  | [a, b] =>
    [digit (a.toNat / 4), digit (a.toNat % 4 * 16 + b.toNat / 16), digit (b.toNat % 16 * 4), '=']
  | a :: b :: c :: rest =>
    digit (a.toNat / 4) :: digit (a.toNat % 4 * 16 + b.toNat / 16) ::
      digit (b.toNat % 16 * 4 + c.toNat / 64) :: digit (c.toNat % 64) :: encode rest

def groups? : List Char → Option Bytes
  | [] => some []
  | [a, b, '=', '='] =>
    match value? a, value? b with
    | some x, some y => some [(x * 4 + y / 16).toUInt8]
    | _, _ => none
  | [a, b, c, '='] =>
    match value? a, value? b, value? c with
    | some x, some y, some z => some [(x * 4 + y / 16).toUInt8, (y % 16 * 16 + z / 4).toUInt8]
    | _, _, _ => none
  | a :: b :: c :: d :: rest =>
    match value? a, value? b, value? c, value? d, groups? rest with
    | some x, some y, some z, some w, some more =>
      some ((x * 4 + y / 16).toUInt8 :: (y % 16 * 16 + z / 4).toUInt8 ::
        (z % 4 * 64 + w).toUInt8 :: more)
    | _, _, _, _, _ => none
  | _ => none

/-- Line breaks in the text do not count. -/
def decode? (cs : List Char) : Option Bytes :=
  groups? (cs.filter fun c => c != '\n' && c != '\r')

end FlowPack.Base64
