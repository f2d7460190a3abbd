import FlowPack.Text.Quoted

namespace FlowPack.Archive

namespace Offset

def digit? : Glyph → Option Nat
  | .char c =>
    if '0' ≤ c && c ≤ '9' then some (c.toNat - 48)
    else if 'a' ≤ c && c ≤ 'f' then some (c.toNat - 87)
    else if 'A' ≤ c && c ≤ 'F' then some (c.toNat - 55)
    else none
  | .stray _ => none

def value? (base acc : Nat) : Text → Option Nat
  | [] => some acc
  | g :: rest =>
    match digit? g with
    | some d => if d < base then value? base (acc * base + d) rest else none
    | none => none

def split : Text → Nat × Text
  | .char '0' :: .char 'x' :: rest => (16, rest)
  | .char '0' :: .char 'X' :: rest => (16, rest)
  | .char '0' :: .char 'o' :: rest => (8, rest)
  | .char '0' :: .char 'b' :: rest => (2, rest)
  | t => (10, t)

/-- Read a literal; outer white space is ignored and the value has to fit a word. -/
def parse? (t : Text) : Option UInt32 :=
  match split t.trim with
  | (_, []) => none
  | (base, ds) =>
    match value? base 0 ds with
    | some n => if n < 0x100000000 then some (UInt32.ofNat n) else none
    | none => none

def invalidMessage (t : Text) : String := "invalid offset literal: " ++ t.quoted

def format (w : UInt32) : String := Numeral.address w

end Offset

end FlowPack.Archive
