import FlowPack.Compression.Zstd.Sequences
import FlowPack.Digest

namespace FlowPack.Zstd

open Window (Buffer)

def maxWindow : Nat := 0x20000000

def minWindow : Nat := 1024

structure FrameHeader where
  window : Nat
  contentSize : Option Nat
  checksum : Bool

def number (size : Nat) (data : Bytes) : Except Fault (Nat × Bytes) :=
  let piece := data.take size
  if piece.length = size then
    .ok (piece.foldr (fun b acc => acc * 256 + b.toNat) 0, data.drop size)
  else .error .cutOff

def windowOf (b : Nat) : Nat :=
  let base := Nat.pow 2 (10 + b / 8)
  base + base / 8 * (b % 8)

def frameHeader (data : Bytes) : Except Fault (FrameHeader × Bytes) := do
  let (descriptor, data) ← number 1 data
  let single := descriptor / 32 % 2 = 1
  -- A bit that is reserved.
  if descriptor / 8 % 2 = 1 then throw .badStream
  let (window, data) ← if single then pure (0, data) else
    (number 1 data).map fun (b, rest) => (windowOf b, rest)
  let idSize := match descriptor % 4 with
    | 3 => 4
    | n => n
  let (dictionary, data) ← number idSize data
  let sizeCode := descriptor / 64
  let sizeSize := if sizeCode = 0 then (if single then 1 else 0) else Nat.pow 2 sizeCode
  let (size, data) ← number sizeSize data
  let content :=
    if sizeSize = 0 then none else if sizeSize = 2 then some (size + 256) else some size
  let window := if single then max (content.getD 0) minWindow else window
  if maxWindow < window then throw .badStream
  -- Dictionaries are not supported.
  if dictionary ≠ 0 then throw .badStream
  return (⟨window, content, descriptor / 4 % 2 = 1⟩, data)

structure Progress where
  out : Buffer
  rest : Bytes
  fault : Option Fault

structure BlockHeader where
  last : Bool
  kind : Nat
  size : Nat

structure StoredBlock where
  header : BlockHeader
  body : Bytes
  checksum : Option Nat

/-- A checksum that is missing is noticed before the block is decoded. -/
def storedBlock (h : FrameHeader) (c : Context) (data : Bytes) :
    Except Fault (StoredBlock × Bytes) := do
  let (head, data) ← number 3 data
  let b : BlockHeader := ⟨head % 2 = 1, head / 2 % 4, head / 8⟩
  if b.kind = 3 ∨ c.limit < b.size ∨ (b.kind = 2 ∧ b.size < 2) then throw .badStream
  let stored := if b.kind = 1 then 1 else b.size
  let body := data.take stored
  if body.length ≠ stored then throw .cutOff
  let data := data.drop stored
  if h.checksum && b.last then
    let (sum, data) ← number 4 data
    return (⟨b, body, some sum⟩, data)
  return (⟨b, body, none⟩, data)

def StoredBlock.decode? (b : StoredBlock) (start : Nat) (c : Context) (out : Buffer) :
    Option (Context × Buffer) :=
  match b.header.kind with
  | 0 => some (c, b.body.foldl Array.push out)
  | 1 => some (c, out ++ Array.replicate b.header.size (b.body.headD 0))
  | _ => compressedBlock? c start b.body.toArray out

/-- Compare what a frame says about its content with the content, as far as it is decoded. -/
def contentFits (h : FrameHeader) (b : StoredBlock) (start : Nat) (out : Buffer) : Bool :=
  let size := out.size - start
  h.contentSize.all (fun n => if b.header.last then size = n else size ≤ n) &&
    b.checksum.all fun sum =>
      (Digest.xxHash64 (out.extract start out.size).toList).toNat % 0x100000000 == sum

/-- Decode the blocks of a frame. What was decoded stays delivered. Every round takes at least
three bytes. -/
def blocks (h : FrameHeader) (start : Nat) : Nat → Context → Bytes → Buffer → Progress
  | 0, _, rest, out => ⟨out, rest, some .badStream⟩
  | fuel + 1, c, data, out =>
    match storedBlock h c data with
    | .error f => ⟨out, data, some f⟩
    | .ok (b, rest) =>
      match b.decode? start c out with
      | none => ⟨out, rest, some .badStream⟩
      | some (c, out) =>
        if !contentFits h b start out then ⟨out, rest, some .badStream⟩
        else if b.header.last then ⟨out, rest, none⟩
        else blocks h start fuel c rest out

def isSkippable (magic : Nat) : Bool := magic / 16 == 0x184D2A5

def skipFrame (data : Bytes) : Except Fault Bytes := do
  let (size, rest) ← number 4 data
  if rest.length < size then throw .cutOff
  return rest.drop size

def frame (data : Bytes) (out : Buffer) : Progress :=
  match number 4 data with
  | .error f => ⟨out, data, some f⟩
  | .ok (magic, rest) =>
    if isSkippable magic then
      match skipFrame rest with
      | .error f => ⟨out, rest, some f⟩
      | .ok rest => ⟨out, rest, none⟩
    else if magic ≠ 0xFD2FB528 then ⟨out, rest, some .badStream⟩
    else match frameHeader rest with
    | .error f => ⟨out, rest, some f⟩
    | .ok (h, rest) => blocks h out.size (rest.length + 1) { window := h.window } rest out

def frames : Nat → Bytes → Buffer → Buffer × Option Fault
  -- Every round takes at least four bytes, so this is never reached.
  | 0, _, out => (out, some .badStream)
  | _, [], out => (out, none)
  | fuel + 1, data, out =>
    let p := frame data out
    match p.fault with
    | none => frames fuel p.rest p.out
    | some f => (p.out, some f)

/-- The bytes a stream delivers before it ends, breaks off or turns out to be bad. -/
def decode (data : Bytes) : Source :=
  let (out, fault) := frames (data.length + 1) data #[]
  ⟨out.toList, fault⟩

end FlowPack.Zstd
