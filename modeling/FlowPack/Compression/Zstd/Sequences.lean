import FlowPack.Compression.Window
import FlowPack.Compression.Zstd.Huffman

namespace FlowPack.Zstd

open Window (Buffer)

def maxBlock : Nat := 131072

/-- What later blocks of a frame may refer to. -/
structure Context where
  window : Nat
  huffman : Option Huffman := none
  literalLengths : Option Fse := none
  distances : Option Fse := none
  matchLengths : Option Fse := none
  recent : Nat × Nat × Nat := (1, 4, 8)

def Context.limit (c : Context) : Nat := min maxBlock c.window

def littleAt (data : Array UInt8) (start count : Nat) : Nat :=
  (List.range count).foldr (fun i acc => acc * 256 + (data.getD (start + i) 0).toNat) 0

abbrev Literals := Option (Buffer × Context × Nat)

def plainLiterals (c : Context) (data : Array UInt8) (repeated : Bool) (format : Nat) : Literals :=
  let header := if format = 1 then 2 else if format = 3 then 3 else 1
  let size :=
    if format = 1 ∨ format = 3 then littleAt data 0 header / 16 else littleAt data 0 1 / 8
  let stored := if repeated then 1 else size
  if data.size < header ∨ c.limit < size ∨ data.size < header + stored then none
  else
    let out :=
      if repeated then Array.replicate size (data.getD header 0)
      else data.extract header (header + size)
    some (out, c, header + stored)

def codedLiterals (c : Context) (data : Array UInt8) (fresh : Bool) (format : Nat) : Literals := do
  let header := if format ≤ 1 then 3 else if format = 2 then 4 else 5
  if data.size < header then none
  let n := littleAt data 0 header / 16
  let width := if format ≤ 1 then 10 else if format = 2 then 14 else 18
  let size := n % Nat.pow 2 width
  let stored := n / Nat.pow 2 width
  if c.limit < size ∨ data.size < header + stored then none
  let body := data.extract header (header + stored)
  let (h, used) ← if fresh then Huffman.read? body else c.huffman.map fun h => (h, 0)
  let body := body.extract used body.size
  let out ← if format = 0 then h.stream? size body #[] else h.fourStreams? size body
  return (out, { c with huffman := some h }, header + stored)

def literals (c : Context) (data : Array UInt8) : Literals :=
  if data.size < 2 then none
  else
    let head := (data.getD 0 0).toNat
    let format := head / 4 % 4
    match head % 4 with
    | 0 => plainLiterals c data false format
    | 1 => plainLiterals c data true format
    | 2 => codedLiterals c data true format
    | _ => codedLiterals c data false format

def codeTable (first : Nat) : List Nat → List (Nat × Nat)
  | [] => []
  | bits :: rest => (first, bits) :: codeTable (first + Nat.pow 2 bits) rest

def literalLengthCodes : Array (Nat × Nat) :=
  (codeTable 0 (List.replicate 16 0 ++
    [1, 1, 1, 1, 2, 2, 3, 3, 4, 6, 7, 8, 9, 10, 11, 12, 13, 14, 15, 16])).toArray

def matchLengthCodes : Array (Nat × Nat) :=
  (codeTable 3 (List.replicate 32 0 ++
    [1, 1, 1, 1, 2, 2, 3, 3, 4, 4, 5, 7, 8, 9, 10, 11, 12, 13, 14, 15, 16])).toArray

def distanceCodes : Array (Nat × Nat) := ((List.range 31).map fun n => (Nat.pow 2 n, n)).toArray

def standardLiteralLengths : Option Fse :=
  Fse.ofCounts? 6 [4, 3, 2, 2, 2, 2, 2, 2, 2, 2, 2, 2, 2, 1, 1, 1, 2, 2, 2, 2, 2, 2, 2, 2, 2, 3, 2,
    1, 1, 1, 1, 1, -1, -1, -1, -1]

def standardDistances : Option Fse :=
  Fse.ofCounts? 5 [1, 1, 1, 1, 1, 1, 2, 2, 2, 1, 1, 1, 1, 1, 1, 1, 1, 1, 1, 1, 1, 1, 1, 1, -1, -1,
    -1, -1, -1]

def standardMatchLengths : Option Fse :=
  Fse.ofCounts? 6 [1, 4, 3, 2, 2, 2, 2, 2, 2, 1, 1, 1, 1, 1, 1, 1, 1, 1, 1, 1, 1, 1, 1, 1, 1, 1, 1,
    1, 1, 1, 1, 1, 1, 1, 1, 1, 1, 1, 1, 1, 1, 1, 1, 1, 1, 1, -1, -1, -1, -1, -1, -1, -1]

def known (codes : Array (Nat × Nat)) (t : Fse) : Bool :=
  t.states.all fun s => s.symbol < codes.size

def readTable? (mode maxSymbol : Nat) (codes : Array (Nat × Nat)) (standard last : Option Fse)
    (data : Array UInt8) (start : Nat) : Option (Fse × Nat) := do
  match mode with
  | 0 => return (← standard, start)
  | 1 =>
    let symbol ← data[start]?
    if codes.size ≤ symbol.toNat then none
    return (Fse.single symbol.toNat, start + 1)
  | 2 =>
    let (t, used) ← Fse.read? 9 maxSymbol (data.extract start data.size)
    if !known codes t then none
    return (t, start + used)
  | _ => return (← last, start)

def sequenceCount? (data : Array UInt8) : Option (Nat × Nat) := do
  let a := (← data[0]?).toNat
  if a < 128 then return (a, 1)
  let b := (← data[1]?).toNat
  if a < 255 then return ((a - 128) * 256 + b, 2)
  let c := (← data[2]?).toNat
  return (0x7F00 + b + 256 * c, 3)

structure Machine where
  literalLengths : Fse
  distances : Fse
  matchLengths : Fse
  ll : Nat
  di : Nat
  ml : Nat

structure Sequence where
  literals : Nat
  distance : Nat
  length : Nat

/-- The distance of a value and the last three distances after it. Values up to three name a
recent distance; without literals they name the one after it, and the value after the last
stands for one less than the first. -/
def resolveDistance (value literals : Nat) (recent : Nat × Nat × Nat) :
    Nat × (Nat × Nat × Nat) :=
  let (a, b, c) := recent
  if 3 < value then (value - 3, (value - 3, a, b))
  else
    match if literals = 0 then value else value - 1 with
    | 0 => (a, recent)
    | 1 => let d := max b 1; (d, (d, a, c))
    | 2 => let d := max c 1; (d, (d, a, b))
    | _ => let d := max (a - 1) 1; (d, (d, a, b))

def popValue (codes : Array (Nat × Nat)) (symbol : Nat) (s : BitStack) : Nat × BitStack :=
  let (base, bits) := codes.getD symbol (0, 0)
  let (extra, s) := s.pop bits
  (base + extra, s)

def Machine.sequence (m : Machine) (recent : Nat × Nat × Nat) (s : BitStack) :
    Sequence × (Nat × Nat × Nat) × BitStack :=
  let (value, s) := popValue distanceCodes (m.distances.get m.di).symbol s
  let (length, s) := popValue matchLengthCodes (m.matchLengths.get m.ml).symbol s
  let (literals, s) := popValue literalLengthCodes (m.literalLengths.get m.ll).symbol s
  let (distance, recent) := resolveDistance value literals recent
  (⟨literals, distance, length⟩, recent, s)

def Machine.step (m : Machine) (s : BitStack) : Machine × BitStack :=
  let move (t : Fse) (state : Nat) (s : BitStack) : Nat × BitStack :=
    let here := t.get state
    let (low, s) := s.pop here.bits
    (here.base + low, s)
  let (ll, s) := move m.literalLengths m.ll s
  let (ml, s) := move m.matchLengths m.ml s
  let (di, s) := move m.distances m.di s
  ({ m with ll, di, ml }, s)

def sequences? : Nat → Machine → Nat × Nat × Nat → BitStack → List Sequence →
    Option (List Sequence × (Nat × Nat × Nat))
  | 0, _, _, _, _ => none
  | 1, m, recent, s, out =>
    let (q, recent, s) := m.sequence recent s
    if s.exact then some ((q :: out).reverse, recent) else none
  | n + 2, m, recent, s, out =>
    let (q, recent, s) := m.sequence recent s
    let (m, s) := m.step s
    if s.short then none else sequences? (n + 1) m recent s (q :: out)

/-- Carry out sequences on the output, of which the frame began at `start`. Returns the output
and the position in the literals. -/
def execute? (window start : Nat) (lits : Buffer) :
    List Sequence → Nat → Buffer → Option (Nat × Buffer)
  | [], taken, out => some (taken, out)
  | q :: rest, taken, out =>
    if lits.size < taken + q.literals then none
    else
      let out := Window.copyFrom lits q.literals taken out
      if out.size - start < q.distance ∨ window < q.distance then none
      else
        execute? window start lits rest (taken + q.literals)
          (Window.copyBack q.distance q.length out)

def readSequences? (c : Context) (data : Array UInt8) : Option (List Sequence × Context) := do
  let (count, used) ← sequenceCount? data
  if count = 0 then
    if data.size ≠ used then none
    return ([], c)
  let modes := (← data[used]?).toNat
  if modes % 4 ≠ 0 then none
  let (ll, p) ← readTable? (modes / 64) 35 literalLengthCodes standardLiteralLengths
    c.literalLengths data (used + 1)
  let (di, p) ← readTable? (modes / 16 % 4) 30 distanceCodes standardDistances c.distances data p
  let (ml, p) ← readTable? (modes / 4 % 4) 52 matchLengthCodes standardMatchLengths
    c.matchLengths data p
  let s ← BitStack.ofBytes? (data.extract p data.size)
  let (lls, s) := s.pop ll.log
  let (dis, s) := s.pop di.log
  let (mls, s) := s.pop ml.log
  if s.short then none
  let (qs, recent) ← sequences? count ⟨ll, di, ml, lls, dis, mls⟩ c.recent s []
  return (qs, { c with
    literalLengths := some ll, distances := some di, matchLengths := some ml, recent })

def compressedBlock? (c : Context) (start : Nat) (data : Array UInt8) (out : Buffer) :
    Option (Context × Buffer) := do
  let (lits, c, used) ← literals c data
  let (qs, c) ← readSequences? c (data.extract used data.size)
  let produced := qs.foldl (fun n q => n + q.length) lits.size
  if c.limit < produced then none
  let (position, out) ← execute? c.window start lits qs 0 out
  return (c, Window.copyFrom lits (lits.size - position) position out)

end FlowPack.Zstd
