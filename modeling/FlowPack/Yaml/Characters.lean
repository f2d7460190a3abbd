import FlowPack.Text

namespace FlowPack.Yaml

def isAllowed (c : Char) : Bool :=
  let n := c.toNat
  n == 9 || n == 10 || n == 13 || (0x20 ≤ n && n ≤ 0x7E) || n == 0x85 ||
    (0xA0 ≤ n && n ≤ 0xFFFD) || 0x10000 ≤ n

def plainChars? : Text → Option (List Char)
  | [] => some []
  | .char c :: rest => if isAllowed c then (plainChars? rest).map (c :: ·) else none
  | .stray _ :: _ => none

def units? (bigEndian : Bool) : Bytes → Option (List Nat)
  | [] => some []
  | [_] => none
  | a :: b :: rest =>
    let unit := if bigEndian then a.toNat * 256 + b.toNat else b.toNat * 256 + a.toNat
    (units? bigEndian rest).map (unit :: ·)

/-- The characters of a sequence of sixteen-bit units; surrogates have to come in pairs. -/
def unitChars? : List Nat → Option (List Char)
  | [] => some []
  | u :: rest =>
    if 0xDC00 ≤ u && u ≤ 0xDFFF then none
    else if 0xD800 ≤ u && u ≤ 0xDBFF then
      match rest with
      | v :: rest =>
        if 0xDC00 ≤ v && v ≤ 0xDFFF then
          let c := Char.ofNat (0x10000 + (u - 0xD800) * 1024 + (v - 0xDC00))
          (unitChars? rest).map (c :: ·)
        else none
      | [] => none
    else
      let c := Char.ofNat u
      if isAllowed c then (unitChars? rest).map (c :: ·) else none

def chars? : Bytes → Option (List Char)
  | 0xFF :: 0xFE :: rest => (units? false rest).bind unitChars?
  | 0xFE :: 0xFF :: rest => (units? true rest).bind unitChars?
  | 0xEF :: 0xBB :: 0xBF :: rest => plainChars? (Text.ofBytes rest)
  | data => plainChars? (Text.ofBytes data)

end FlowPack.Yaml
