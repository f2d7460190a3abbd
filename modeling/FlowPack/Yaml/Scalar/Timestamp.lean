import FlowPack.Yaml.Cursor

namespace FlowPack.Yaml.Timestamp

def short? : List Char → Option (Nat × List Char)
  | a :: rest =>
    if isDigit a then
      match rest with
      | b :: more =>
        if isDigit b then some ((a.toNat - 48) * 10 + (b.toNat - 48), more)
        else some (a.toNat - 48, rest)
      | [] => some (a.toNat - 48, [])
    else none
  | [] => none

def lit? (x : Char) : List Char → Option (List Char)
  | c :: rest => if c == x then some rest else none
  | [] => none

def isLeap (year : Nat) : Bool := year % 4 == 0 && (year % 100 != 0 || year % 400 == 0)

def daysIn (year month : Nat) : Nat :=
  if month == 2 then (if isLeap year then 29 else 28)
  else if month == 4 || month == 6 || month == 9 || month == 11 then 30
  else 31

def date? (cs : List Char) : Option (List Char) := do
  let ds := cs.takeWhile isDigit
  if ds.length != 4 then none
  let year := ds.foldl (fun n d => n * 10 + (d.toNat - 48)) 0
  let cs ← lit? '-' (cs.drop 4)
  let (month, cs) ← short? cs
  let cs ← lit? '-' cs
  let (day, cs) ← short? cs
  if 1 ≤ month && month ≤ 12 && 1 ≤ day && day ≤ daysIn year month then return cs else none

def time? (cs : List Char) : Option (List Char) := do
  let (hour, cs) ← short? cs
  let cs ← lit? ':' cs
  let (minute, cs) ← short? cs
  let cs ← lit? ':' cs
  let (second, cs) ← short? cs
  if 24 ≤ hour || 60 ≤ minute || 60 ≤ second then none
  match cs with
  | p :: d :: rest =>
    if (p == '.' || p == ',') && isDigit d then return rest.dropWhile isDigit else return cs
  | _ => return cs

def isZone : List Char → Bool
  | ['Z'] => true
  | [s, a, b, ':', c, d] =>
    (s == '+' || s == '-') && [a, b, c, d].all isDigit &&
      (a.toNat - 48) * 10 + (b.toNat - 48) ≤ 24 && (c.toNat - 48) * 10 + (d.toNat - 48) ≤ 60
  | _ => false

def recognises (cs : List Char) : Bool :=
  match date? cs with
  | none => false
  | some [] => true
  | some (x :: rest) =>
    if x == 'T' || x == 't' then ((time? rest).map isZone).getD false
    else if x == ' ' then time? (rest.dropWhile (· == ' ')) == some []
    else false

end FlowPack.Yaml.Timestamp
