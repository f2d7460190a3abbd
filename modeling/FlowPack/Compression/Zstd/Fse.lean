import FlowPack.Compression.Zstd.Bits

namespace FlowPack.Zstd

structure State where
  symbol : Nat
  bits : Nat
  base : Nat
  deriving Inhabited

structure Fse where
  log : Nat
  states : Array State

namespace Fse

def get (t : Fse) (state : Nat) : State := t.states.getD state ⟨0, 0, 0⟩

def single (symbol : Nat) : Fse := ⟨0, #[⟨symbol, 0, 0⟩]⟩

def placeRare (cells : Array Nat) (free : Nat) : List (Nat × Int) → Array Nat × Nat
  | [] => (cells, free)
  | (symbol, count) :: rest =>
    if count = -1 then placeRare (cells.setIfInBounds (free - 1) symbol) (free - 1) rest
    else placeRare cells free rest

/-- The next cell of the walk that is below `free`. -/
def nextCell (size free step : Nat) : Nat → Nat → Nat
  | 0, p => p
  | fuel + 1, p =>
    let p := (p + step) % size
    if p < free then p else nextCell size free step fuel p

def placeOne (size free step symbol : Nat) : Nat → Nat → Array Nat → Array Nat × Nat
  | 0, p, cells => (cells, p)
  | n + 1, p, cells =>
    placeOne size free step symbol n (nextCell size free step size p)
      (cells.setIfInBounds p symbol)

def placeAll (size free step : Nat) : List (Nat × Int) → Nat → Array Nat → Array Nat
  | [], _, cells => cells
  | (symbol, count) :: rest, p, cells =>
    let (cells, p) := placeOne size free step symbol count.toNat p cells
    placeAll size free step rest p cells

/-- States from the cells: the `n`-th cell of a symbol continues its count. -/
def fillStates (log size : Nat) : List Nat → Array Nat → Array State → Array State
  | [], _, out => out
  | symbol :: rest, next, out =>
    let n := next.getD symbol 0
    let bits := log - n.log2
    fillStates log size rest (next.setIfInBounds symbol (n + 1))
      (out.push ⟨symbol, bits, n * Nat.pow 2 bits - size⟩)

/-- A state that leads to itself without reading anything never ends. -/
def stuck (states : Array State) : Bool :=
  (List.range states.size).any fun i =>
    let s := states.getD i ⟨0, 1, 0⟩
    s.bits == 0 && s.base == i

def ofCounts? (log : Nat) (counts : List Int) : Option Fse :=
  let size := Nat.pow 2 log
  let step := size / 2 + size / 8 + 3
  let numbered := (List.range counts.length).zip counts
  let (cells, free) := placeRare (Array.replicate size 0) size numbered
  let cells := placeAll size free step numbered 0 cells
  let next := (counts.map fun c => if c = -1 then 1 else c.toNat).toArray
  let states := fillStates log size cells.toList next #[]
  if stuck states then none else some ⟨log, states⟩

structure Progress where
  position : Nat
  remaining : Nat
  threshold : Nat
  width : Nat
  counts : List Int

/-- The number of zero counts in groups of two bits, three meaning that more follow. -/
def zeroRun (data : Array UInt8) : Nat → Nat → Nat → Nat × Nat
  | 0, position, n => (position, n)
  | fuel + 1, position, n =>
    let v := bitsAt data position 2
    if v = 3 then zeroRun data fuel (position + 2) (n + 3) else (position + 2, n + v)

def lower : Nat → Nat → Nat → Nat → Nat × Nat
  | 0, _, threshold, width => (threshold, width)
  | fuel + 1, remaining, threshold, width =>
    if remaining < threshold then lower fuel remaining (threshold / 2) (width - 1)
    else (threshold, width)

def readCount (data : Array UInt8) (p : Progress) : Progress :=
  let limit := 2 * p.threshold - 1 - p.remaining
  let low := bitsAt data p.position (p.width - 1)
  let (value, used) :=
    if low < limit then (low, p.width - 1)
    else
      let v := bitsAt data p.position p.width
      (if p.threshold ≤ v then v - limit else v, p.width)
  let count := (value : Int) - 1
  let remaining := p.remaining - count.natAbs
  let (threshold, width) := lower 32 remaining p.threshold p.width
  ⟨p.position + used, remaining, threshold, width, count :: p.counts⟩

def readCounts (data : Array UInt8) (maxSymbol : Nat) : Nat → Progress → Option Progress
  | 0, _ => none
  | fuel + 1, p =>
    if p.remaining ≤ 1 ∨ maxSymbol < p.counts.length then some p
    else if p.counts.head? = some 0 then
      let (position, n) := zeroRun data 300 p.position 0
      if 255 < p.counts.length + n then none
      else
        let p := { p with position, counts := List.replicate n 0 ++ p.counts }
        readCounts data maxSymbol fuel (readCount data p)
    else readCounts data maxSymbol fuel (readCount data p)

def read? (maxLog maxSymbol : Nat) (data : Array UInt8) : Option (Fse × Nat) := do
  if data.size < 4 then none
  let log := bitsAt data 0 4 + 5
  if maxLog < log then none
  let p ← readCounts data maxSymbol 600 ⟨4, Nat.pow 2 log + 1, Nat.pow 2 log, log + 1, []⟩
  if p.counts.length ≤ 1 ∨ 256 < p.counts.length ∨ p.remaining ≠ 1 ∨ 8 * data.size < p.position then
    none
  let table ← ofCounts? log p.counts.reverse
  return (table, (p.position + 7) / 8)

end Fse

end FlowPack.Zstd
