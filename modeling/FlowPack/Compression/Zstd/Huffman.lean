import FlowPack.Compression.Zstd.Fse

namespace FlowPack.Zstd

/-- A table indexed by the next `log` bits; a cell gives a symbol and the length of its code. -/
structure Huffman where
  log : Nat
  cells : Array (UInt8 × Nat)

namespace Huffman

def maxLog : Nat := 11

def popOrZero (s : BitStack) (count : Nat) : Nat × BitStack :=
  if s.left = 0 then (0, s) else s.pop count

def finished (s : BitStack) (t : Fse) (state : Nat) : Bool := s.left == 0 && 0 < (t.get state).bits

/-- Decode weights with two states that take turns; `out` is reversed. When a state finds the
stream empty, the symbols of both states follow and the list is complete. -/
def weightsFrom (t : Fse) : Nat → Nat → Nat → BitStack → List Nat → Option (List Nat)
  | 0, _, _, _, _ => none
  | fuel + 1, a, b, s, out =>
    let symbol (x : Nat) : Nat := (t.get x).symbol
    if finished s t a then
      if s.short then none else some (symbol b :: symbol a :: out).reverse
    else
      let (low, s) := popOrZero s (t.get a).bits
      weightsFrom t fuel b ((t.get a).base + low) s (symbol a :: out)

def packedWeights? (data : Array UInt8) : Option (List Nat) := do
  let (t, used) ← Fse.read? 15 255 data
  let s ← BitStack.ofBytes? (data.extract used data.size)
  let (a, s) := popOrZero s t.log
  let (b, s) := popOrZero s t.log
  let out ← weightsFrom t 256 a b s []
  if 255 < out.length then none else some out

def plainWeights (count : Nat) (data : Array UInt8) : List Nat :=
  (List.range count).map fun i =>
    let b := (data.getD (i / 2) 0).toNat
    if i % 2 = 0 then b / 16 else b % 16

def readWeights? (data : Array UInt8) : Option (List Nat × Nat) :=
  if data.size ≤ 1 then none
  else
    let head := (data.getD 0 0).toNat
    if 128 ≤ head then
      let count := head - 127
      let size := (count + 1) / 2
      if data.size < 1 + size then none
      else some (plainWeights count (data.extract 1 (1 + size)), 1 + size)
    else if data.size < 1 + head then none
    else (packedWeights? (data.extract 1 (1 + head))).map fun ws => (ws, 1 + head)

def cellCount (w : Nat) : Nat := if w = 0 then 0 else Nat.pow 2 (w - 1)

/-- The weight of the last symbol and the size of the table as a power of two. -/
def complete? (weights : List Nat) : Option (Nat × Nat) :=
  if weights.any (maxLog < ·) then none
  else
    let total := (weights.map cellCount).foldl (· + ·) 0
    if total = 0 then none
    else
      let log := total.log2 + 1
      let rest := Nat.pow 2 log - total
      if maxLog < log ∨ Nat.pow 2 rest.log2 ≠ rest then none else some (rest.log2 + 1, log)

def cellsOf (log w : Nat) (weights : List (Nat × Nat)) : List (UInt8 × Nat) :=
  weights.flatMap fun (symbol, v) =>
    if v = w then List.replicate (cellCount w) (UInt8.ofNat symbol, log + 1 - w) else []

/-- The table of a list of weights without the last. At least two symbols, and an even number
of them, have the longest code. -/
def ofWeights? (weights : List Nat) : Option Huffman := do
  let (last, log) ← complete? weights
  let all := weights ++ [last]
  let longest := all.count 1
  if longest < 2 ∨ longest % 2 = 1 then none
  let numbered := (List.range all.length).zip all
  return ⟨log, ((List.range log).flatMap fun w => cellsOf log (w + 1) numbered).toArray⟩

def read? (data : Array UInt8) : Option (Huffman × Nat) := do
  let (weights, used) ← readWeights? data
  let table ← ofWeights? weights
  return (table, used)

def symbols (h : Huffman) : Nat → BitStack → Array UInt8 → Array UInt8 × BitStack
  | 0, s, out => (out, s)
  | n + 1, s, out =>
    let (symbol, length) := h.cells.getD (s.peek h.log) (0, 1)
    symbols h n (s.drop length) (out.push symbol)

def stream? (h : Huffman) (count : Nat) (data out : Array UInt8) : Option (Array UInt8) := do
  let s ← BitStack.ofBytes? data
  let (out, s) := h.symbols count s out
  if s.exact then some out else none

/-- Decode four streams, each of which holds a quarter of the symbols, rounded up; the lengths
of the first three stand in front. -/
def fourStreams? (h : Huffman) (count : Nat) (data : Array UInt8) : Option (Array UInt8) := do
  if data.size < 10 then none
  let length (i : Nat) : Nat := (data.getD (2 * i) 0).toNat + 256 * (data.getD (2 * i + 1) 0).toNat
  let a := 6 + length 0
  let b := a + length 1
  let c := b + length 2
  if data.size ≤ c then none
  let quarter := (count + 3) / 4
  if count < 3 * quarter then none
  let out ← h.stream? quarter (data.extract 6 a) #[]
  let out ← h.stream? quarter (data.extract a b) out
  let out ← h.stream? quarter (data.extract b c) out
  h.stream? (count - 3 * quarter) (data.extract c data.size) out

end Huffman

end FlowPack.Zstd
