import FlowPack.Bytes

namespace FlowPack.Zstd

/-- The number in the bits `[start, start + count)`, the first the least significant. Bits past
the end are zero; `count` is at most 32. -/
def bitsAt (data : Array UInt8) (start count : Nat) : Nat :=
  let i := start / 8
  let byte (k : Nat) : Nat := (data.getD (i + k) 0).toNat
  let window :=
    byte 0 + byte 1 * 0x100 + byte 2 * 0x10000 + byte 3 * 0x1000000 + byte 4 * 0x100000000
  window / Nat.pow 2 (start % 8) % Nat.pow 2 count

/-- Bits that are read from the end. `short` records a read past the front. -/
structure BitStack where
  data : Array UInt8
  left : Nat
  short : Bool := false

namespace BitStack

/-- The last byte holds a mark: its highest set bit and what is above do not count. -/
def ofBytes? (data : Array UInt8) : Option BitStack :=
  match data.back? with
  | none => none
  | some last =>
    if last = 0 then none else some { data, left := 8 * (data.size - 1) + last.toNat.log2 }

def peek (s : BitStack) (count : Nat) : Nat :=
  if count ≤ s.left then bitsAt s.data (s.left - count) count
  else bitsAt s.data 0 s.left * Nat.pow 2 (count - s.left)

def drop (s : BitStack) (count : Nat) : BitStack :=
  if count ≤ s.left then { s with left := s.left - count } else { s with left := 0, short := true }

def pop (s : BitStack) (count : Nat) : Nat × BitStack := (s.peek count, s.drop count)

def exact (s : BitStack) : Bool := s.left == 0 && !s.short

end BitStack

end FlowPack.Zstd
