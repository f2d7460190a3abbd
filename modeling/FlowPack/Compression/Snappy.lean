import FlowPack.Compression.Checksum
import FlowPack.Compression.Window

namespace FlowPack.Snappy

open Window (Buffer)

def maxBlock : Nat := 65536

def maxChunk : Nat := 65547

def little (data : Bytes) : Nat := data.foldr (fun b acc => acc * 256 + b.toNat) 0

/-- A number in groups of seven bits, least significant first. -/
def varint? (shift acc : Nat) : Nat → Bytes → Option (Nat × Bytes)
  | 0, _ => none
  | _, [] => none
  | n + 1, b :: rest =>
    let acc := acc + (b.toNat % 128) * Nat.pow 2 shift
    if b < 128 then some (acc, rest) else varint? (shift + 7) acc n rest

inductive Element where
  | literal (data : Bytes)
  | copy (distance : Option Nat) (length : Nat)

def bytes? (n : Nat) (data : Bytes) : Option (Bytes × Bytes) :=
  let piece := data.take n
  if piece.length = n then some (piece, data.drop n) else none

def literal? (code : Nat) (rest : Bytes) : Option (Element × Bytes) := do
  let (length, rest) ←
    if code < 60 then pure (code + 1, rest)
    else (bytes? (code - 59) rest).map fun (n, rest) => (little n + 1, rest)
  let (data, rest) ← bytes? length rest
  return (.literal data, rest)

/-- A copy with an eleven-bit distance; distance zero repeats the last distance, and then the
larger length codes bring more length bytes. -/
def nearCopy? (tag : Nat) (rest : Bytes) : Option (Element × Bytes) := do
  let (low, rest) ← bytes? 1 rest
  let distance := tag / 32 * 256 + little low
  let code := tag / 4 % 8
  if distance ≠ 0 then return (.copy (some distance) (code + 4), rest)
  else if code < 5 then return (.copy none (code + 4), rest)
  else
    let (more, rest) ← bytes? (code - 4) rest
    let extra := if code = 5 then 4 else if code = 6 then 256 else 65536
    return (.copy none (little more + extra + 4), rest)

def farCopy? (width tag : Nat) (rest : Bytes) : Option (Element × Bytes) := do
  let (distance, rest) ← bytes? width rest
  return (.copy (some (little distance)) (tag / 4 + 1), rest)

def element? : Bytes → Option (Element × Bytes)
  | [] => none
  | b :: rest =>
    let tag := b.toNat
    match tag % 4 with
    | 0 => literal? (tag / 4) rest
    | 1 => nearCopy? tag rest
    | 2 => farCopy? 2 tag rest
    | _ => farCopy? 4 tag rest

def elements? (size : Nat) : Nat → Nat → Bytes → Buffer → Option Buffer
  | 0, _, _, _ => none
  | _, _, [], out => if out.size = size then some out else none
  | fuel + 1, last, data, out =>
    match element? data with
    | none => none
    | some (.literal piece, rest) =>
      if size < out.size + piece.length then none
      else elements? size fuel last rest (piece.foldl Array.push out)
    | some (.copy distance length, rest) =>
      let d := distance.getD last
      if d = 0 ∨ out.size < d ∨ size < out.size + length then none
      else elements? size fuel d rest (Window.copyBack d length out)

def block? (data : Bytes) : Option Bytes := do
  let (size, rest) ← varint? 0 0 10 data
  if maxBlock < size then none
  else
    let out ← elements? size (rest.length + 1) 0 rest #[]
    return out.toList

def identifier : Bytes := [0x73, 0x4E, 0x61, 0x50, 0x70, 0x59]

def extendedIdentifier : Bytes := [0x53, 0x32, 0x73, 0x54, 0x77, 0x4F]

inductive Chunk where
  | data (bytes : Bytes) (rest : Bytes)
  | ends
  | bad

def checked (sum data rest : Bytes) : Chunk :=
  if little sum = (Checksum.masked data).toNat then .data data rest else .bad

/-- Skip a body that is read in pieces, or jumped over when the source allows it. A body that
is missing wholly ends the stream. -/
def skip (seekable : Bool) (length : Nat) (rest : Bytes) : Chunk :=
  if length ≤ rest.length ∨ seekable then .data [] (rest.drop length)
  else if rest.length % maxChunk = 0 then .ends
  else .bad

def chunk (seekable : Bool) (type : UInt8) (length : Nat) (rest : Bytes) : Chunk :=
  if type = 0xFF then
    match bytes? length rest with
    | some (body, rest) =>
      if body = identifier ∨ body = extendedIdentifier then .data [] rest else .bad
    | none => .bad
  else if type = 0 then
    if length < 4 ∨ maxChunk < length then .bad
    else match bytes? length rest with
    | none => .bad
    | some (body, rest) =>
      match block? (body.drop 4) with
      | none => .bad
      | some data => checked (body.take 4) data rest
  else if type = 1 then
    if length < 4 ∨ maxBlock + 4 < length then .bad
    else match bytes? length rest with
    | none => .bad
    | some (body, rest) => checked (body.take 4) (body.drop 4) rest
  else if type ≤ 0x7F then .bad
  else skip seekable length rest

def chunks (seekable : Bool) : Nat → Bool → Bytes → Buffer → Buffer × Bool
  -- Every round takes at least four bytes, so this is never reached.
  | 0, _, _, out => (out, true)
  | _, _, [], out => (out, true)
  | fuel + 1, opened, t :: a :: b :: c :: rest, out =>
    -- The stream has to open with an identifier.
    if !opened && t ≠ 0xFF then (out, false)
    else
      match chunk seekable t (little [a, b, c]) rest with
      | .bad => (out, false)
      | .ends => (out, true)
      | .data piece rest => chunks seekable fuel true rest (piece.foldl Array.push out)
  | _, _, _, out => (out, false)

/-- The bytes a stream delivers before it ends or turns out to be bad. -/
def decode (seekable : Bool) (data : Bytes) : Source :=
  let (out, good) := chunks seekable (data.length + 1) false data #[]
  ⟨out.toList, if good then none else some .badStream⟩

end FlowPack.Snappy
