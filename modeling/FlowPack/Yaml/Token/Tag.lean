import FlowPack.Yaml.Cursor
import FlowPack.Yaml.Token

namespace FlowPack.Yaml

def anchorName? (c : Cursor) : Option (List Char × Cursor) :=
  let (name, c) := (c.skip 1).span isWordChar
  let closed := match c.next? with
    | none => true
    | some x => isBlank x || isBreak x || "?:,]\x7d%@".toList.contains x || x.toNat == 0x60
  if name.isEmpty || !closed then none else some (name, c)

namespace TagName

def isUriChar (c : Char) : Bool := isWordChar c || ";/?:@&=+$,.!~*'()[]%".toList.contains c

def sequenceLength (b : Nat) : Nat :=
  if b < 0x80 then 1
  else if 0xC0 ≤ b && b < 0xE0 then 2
  else if 0xE0 ≤ b && b < 0xF0 then 3
  else if 0xF0 ≤ b && b < 0xF8 then 4
  else 0

def escapedByte? : List Char → Option (Nat × List Char)
  | '%' :: a :: b :: rest =>
    match hexValue? a, hexValue? b with
    | some h, some l => some (h * 16 + l, rest)
    | _, _ => none
  | _ => none

def continuation? : Nat → List Char → Option (Bytes × List Char)
  | 0, rest => some ([], rest)
  | n + 1, rest =>
    match escapedByte? rest with
    | none => none
    | some (b, rest) =>
      if 0x80 ≤ b && b < 0xC0 then
        (continuation? n rest).map fun (bs, rest) => (b.toUInt8 :: bs, rest)
      else none

def escaped? (rest : List Char) : Option (Bytes × List Char) :=
  match escapedByte? rest with
  | none => none
  | some (b, rest) =>
    match sequenceLength b with
    | 0 => none
    | n + 1 => (continuation? n rest).map fun (bs, rest) => (b.toUInt8 :: bs, rest)

/-- A run of URI characters with the escapes undone; `n` bounds its length. -/
def uri? : Nat → List Char → Option (Bytes × List Char)
  | 0, rest => some ([], rest)
  | n + 1, rest =>
    match rest with
    | [] => some ([], [])
    | '%' :: _ =>
      match escaped? rest with
      | none => none
      | some (bs, rest) => (uri? n rest).map fun (more, rest) => (bs ++ more, rest)
    | x :: tail =>
      if isUriChar x then (uri? n tail).map fun (more, rest) => (x.toNat.toUInt8 :: more, rest)
      else some ([], rest)

def takeUri? (opened : Bool) (c : Cursor) : Option (Bytes × Cursor) :=
  match uri? c.rest.length c.rest with
  | none => none
  | some (bs, rest) =>
    if bs.isEmpty && !opened then none
    else some (bs, c.skip (c.rest.length - rest.length))

/-- An exclamation mark, word characters and perhaps another mark. -/
def takeHandle (c : Cursor) : List Char × Cursor :=
  let (name, c') := (c.skip 1).span isWordChar
  if c'.next? == some '!' then ('!' :: name ++ ['!'], c'.skip 1) else ('!' :: name, c')

def asBytes (cs : List Char) : Bytes := cs.map (·.toNat.toUInt8)

def read? (c : Cursor) : Option (TagName × Cursor) := do
  let (t, c) ←
    if c.second? == some '<' then
      match takeUri? false (c.skip 2) with
      | none => none
      | some (bs, c) =>
        if c.next? == some '>' then some ((⟨[], Text.ofBytes bs⟩ : TagName), c.skip 1) else none
    else
      let (h, after) := takeHandle c
      if 1 < h.length && h.getLast? == some '!' then
        (takeUri? false after).map fun (bs, c) => (⟨h, Text.ofBytes bs⟩, c)
      else
        (takeUri? true after).map fun (bs, c) =>
          match asBytes (h.drop 1) ++ bs with
          | [] => (⟨[], [.char '!']⟩, c)
          | suffix => (⟨['!'], Text.ofBytes suffix⟩, c)
  if separates c.next? then return (t, c) else none

end TagName

namespace Directive

def number? (c : Cursor) : Option (Nat × Cursor) :=
  let (ds, c) := c.span isDigit
  if ds.isEmpty || 2 < ds.length then none
  else some (ds.foldl (fun n d => n * 10 + (d.toNat - 48)) 0, c)

def version? (c : Cursor) : Option (TokenKind × Cursor) := do
  let (major, c) ← number? (c.skipWhile isBlank)
  if c.next? != some '.' then none
  let (minor, c) ← number? (c.skip 1)
  return (.version major minor, c)

def tagHandle? (c : Cursor) : Option (TokenKind × Cursor) := do
  let c := c.skipWhile isBlank
  if c.next? != some '!' then none
  let (h, c) := TagName.takeHandle c
  if h != ['!'] && h.getLast? != some '!' then none
  if !(c.next?.map isBlank).getD false then none
  let (bs, c) ← TagName.takeUri? false (c.skipWhile isBlank)
  if !separates c.next? then none
  return (.tagHandle h (Text.ofBytes bs), c)

def read? (c : Cursor) : Option (TokenKind × Cursor) := do
  let (name, c) := (c.skip 1).span isWordChar
  if name.isEmpty || !separates c.next? then none
  let (kind, c) ←
    if name = "YAML".toList then version? c
    else if name = "TAG".toList then tagHandle? c
    else none
  let c := c.skipWhile isBlank
  let c := if c.next? == some '#' then c.skipLine else c
  if endsLine c.next? then return (kind, c.skipBreak) else none

end Directive

end FlowPack.Yaml
