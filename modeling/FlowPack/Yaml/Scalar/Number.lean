import FlowPack.Yaml.Cursor

namespace FlowPack.Yaml

def digitsValue? (base acc : Nat) : List Char → Option Nat
  | [] => some acc
  | c :: rest =>
    match hexValue? c with
    | some d => if d < base then digitsValue? base (acc * base + d) rest else none
    | none => none

def natural? (cs : List Char) : Option Nat :=
  match cs with
  | [] => none
  | '0' :: m :: d :: rest =>
    if m == 'x' || m == 'X' then digitsValue? 16 0 (d :: rest)
    else if m == 'o' || m == 'O' then digitsValue? 8 0 (d :: rest)
    else if m == 'b' || m == 'B' then digitsValue? 2 0 (d :: rest)
    else digitsValue? 8 0 (m :: d :: rest)
  | '0' :: rest => digitsValue? 8 0 rest
  | cs => digitsValue? 10 0 cs

def splitSign : List Char → Bool × List Char
  | '-' :: rest => (true, rest)
  | '+' :: rest => (false, rest)
  | cs => (false, cs)

def maxInt : Int := 0x7FFFFFFFFFFFFFFF

def minInt : Int := -0x8000000000000000

def signed? (read : List Char → Option Nat) (cs : List Char) : Option Int :=
  let (negative, ds) := splitSign cs
  match read ds with
  | none => none
  | some n =>
    let v : Int := if negative then -(n : Int) else n
    if minInt ≤ v ∧ v ≤ maxInt then some v else none

def unsigned? (read : List Char → Option Nat) (cs : List Char) : Option Int :=
  match read cs with
  | none => none
  | some n => if n < 0x10000000000000000 then some n else none

def digitsOf? (base : Nat) (cs : List Char) : Option Nat :=
  if cs.isEmpty then none else digitsValue? base 0 cs

def integer? (cs : List Char) : Option Int :=
  (signed? natural? cs).or (unsigned? natural? cs)

/-- Base two and base eight once more, with a sign after the mark of the base. -/
def signedAfterMark? (cs : List Char) : Option Int :=
  match cs with
  | '0' :: 'b' :: ds => (signed? (digitsOf? 2) ds).or (unsigned? (digitsOf? 2) ds)
  | '0' :: 'o' :: ds => (signed? (digitsOf? 8) ds).or (unsigned? (digitsOf? 8) ds)
  | _ => none

structure Decimal where
  negative : Bool
  digits : Nat
  exponent : Int
  deriving DecidableEq, Repr

namespace Decimal

/-- The value of exponent digits. From five digits on more of them make no difference. -/
def magnitude (ds : List Char) : Nat :=
  ds.foldl (fun n d => if n < 10000 then n * 10 + (d.toNat - 48) else n) 0

def exponent? : List Char → Option Int
  | [] => some 0
  | e :: rest =>
    let (negative, ds) := splitSign rest
    if (e == 'e' || e == 'E') && !ds.isEmpty && ds.all isDigit then
      some (if negative then -(magnitude ds : Int) else magnitude ds)
    else none

def parse? (cs : List Char) : Option Decimal :=
  let (negative, cs) := splitSign cs
  let whole := cs.takeWhile isDigit
  let rest := cs.dropWhile isDigit
  let (fraction, rest) := match rest with
    | '.' :: more => (more.takeWhile isDigit, more.dropWhile isDigit)
    | _ => ([], rest)
  match digitsOf? 10 (whole ++ fraction), exponent? rest with
  | some digits, some e => some { negative, digits, exponent := e - fraction.length }
  | _, _ => none

end Decimal

/-- Underscores are allowed between two digits only. -/
def separatorsFit : Bool → List Char → Bool
  | _, [] => true
  | afterDigit, '_' :: rest =>
    afterDigit && (rest.head?.map isDigit).getD false && separatorsFit false rest
  | _, c :: rest => separatorsFit (isDigit c) rest

/-- A double-precision number, as far as it matters for integers. -/
inductive Double where
  | nan
  | infinite (negative : Bool)
  | finite (negative : Bool) (whole : Nat)
  deriving DecidableEq, Repr

namespace Double

def roundDiv (num den : Nat) : Nat :=
  let q := num / den
  let r := num % den
  if 2 * r < den then q
  else if den < 2 * r then q + 1
  else if q % 2 == 0 then q else q + 1

/-- The exponent of the greatest power of two not above a fraction. -/
def floorLog (num den : Nat) : Int :=
  let e : Int := (Nat.log2 num : Int) - Nat.log2 den
  let reached := if 0 ≤ e then den * Nat.pow 2 e.toNat ≤ num else den ≤ num * Nat.pow 2 (-e).toNat
  if reached then e else e - 1

/-- The whole part of the double nearest to a fraction; nothing if the fraction is too big. -/
def wholeOf? (num den : Nat) : Option Nat :=
  if num = 0 then some 0
  else
    let top := floorLog num den
    let q := max (top - 52) (-1074)
    let m := if 0 ≤ q then roundDiv num (den * Nat.pow 2 q.toNat)
      else roundDiv (num * Nat.pow 2 (-q).toNat) den
    if 1024 ≤ top || (q == 971 && m == 0x20000000000000) then none
    else if 0 ≤ q then some (m * Nat.pow 2 q.toNat)
    else some (m / Nat.pow 2 (-q).toNat)

def ofDecimal? (d : Decimal) : Option Double :=
  let whole :=
    if 0 ≤ d.exponent then wholeOf? (d.digits * Nat.pow 10 d.exponent.toNat) 1
    else wholeOf? d.digits (Nat.pow 10 (-d.exponent).toNat)
  whole.map (.finite d.negative)

def ofInt? (n : Int) : Option Double := (wholeOf? n.natAbs 1).map (.finite (n < 0))

/-- The integer a field gets. Too large a magnitude gives the least integer, but a positive
number above all integers is refused. -/
def toInt? : Double → Option Int
  | nan => none
  | infinite negative => if negative then some minInt else none
  | finite negative whole =>
    if negative then some (if whole ≤ 0x8000000000000000 then -(whole : Int) else minInt)
    else if whole < 0x8000000000000000 then some whole
    else if whole = 0x8000000000000000 then some minInt
    else none

end Double

end FlowPack.Yaml
