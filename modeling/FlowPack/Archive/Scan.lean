import FlowPack.Archive.Layout
import FlowPack.Bytes
import FlowPack.Journal.Logger

namespace FlowPack.Archive

structure Candidate where
  table : Table
  index : Nat
  start : UInt32
  assets : UInt32
  deriving DecidableEq, Repr

/-- Added to the numbers of gate records in a combined listing. -/
def gateIndexBase : Nat := 0x100

def Candidate.taggedIndex (c : Candidate) : Nat :=
  if c.table = .gate then gateIndexBase + c.index else c.index

structure TempoCandidate where
  index : Nat
  id1 : UInt32
  id2 : UInt32
  position : UInt32
  padding : UInt32
  deriving DecidableEq, Repr

structure Report where
  base : UInt32
  games : List Candidate
  tempos : List TempoCandidate
  deriving DecidableEq, Repr

def Report.size (r : Report) : Nat := r.games.length + r.tempos.length

/-- Where the data were found to be short. The gap counts as the game record after the last. -/
structure Shortage where
  table : Table
  index : Nat
  offset : Nat
  gap : Bool
  fault : Option Fault
  deriving DecidableEq, Repr

def Shortage.message (s : Shortage) : String :=
  let cause := match s.fault with
    | none => "archive table truncated"
    | some f => f.text
  let lead := if s.gap then "gap: " else ""
  s!"{s.table.name} table record {s.index} at byte 0x{Numeral.hex 1 s.offset}: {lead}{cause}"

inductive ScanError where
  | layout (e : LayoutError)
  | table (s : Shortage)
  deriving DecidableEq, Repr

def ScanError.message : ScanError → String
  | layout e => e.message
  | table s => s.message

structure Position where
  offset : Nat
  rest : Bytes
  deriving DecidableEq, Repr

def Position.take? (p : Position) (size : Nat) : Option (Bytes × Position) :=
  let piece := p.rest.take size
  if piece.length = size then some (piece, ⟨p.offset + size, p.rest.drop size⟩) else none

def wordAt (record : Bytes) (offset : Nat) : UInt32 := (Word.at? record offset).getD 0

def Candidate.ofRecord (table : Table) (index : Nat) (record : Bytes) : Candidate :=
  ⟨table, index, wordAt record 4, wordAt record 8⟩

def TempoCandidate.ofRecord (index : Nat) (record : Bytes) : TempoCandidate :=
  ⟨index, wordAt record 0, wordAt record 4, wordAt record 8, wordAt record 12⟩

def readTable {α : Type} (fault : Option Fault) (table : Table) (stride : Nat)
    (read : Nat → Bytes → α) : Nat → Nat → Position → Except Shortage (List α × Position)
  | 0, _, p => .ok ([], p)
  | count + 1, index, p =>
    match p.take? stride with
    | none => .error ⟨table, index, p.offset, false, fault.filter (!·.saysShort)⟩
    | some (record, q) =>
      match readTable fault table stride read count (index + 1) q with
      | .error e => .error e
      | .ok (later, r) => .ok (read index record :: later, r)

/-- Pass over the gap behind the game table. Here only the plain end counts as one. -/
def skipGap (fault : Option Fault) (l : Layout) (p : Position) : Except Shortage Position :=
  match p.take? l.tableGap.toNat with
  | none => .error ⟨.game, l.gameRecords.toNat, p.offset, true, fault.filter (!·.saysEnded)⟩
  | some (_, q) => .ok q

structure Records where
  games : List Candidate
  tempos : List TempoCandidate
  gates : List Candidate
  size : Nat

def readRecords (l : Layout) (source : Source) : Except Shortage Records := do
  let fault := source.fault
  let (games, p) ← readTable fault .game l.gameStride.toNat (.ofRecord .game)
    l.gameRecords.toNat 0 ⟨0, source.data⟩
  let p ← skipGap fault l p
  let (tempos, p) ← readTable fault .tempo l.tempoStride.toNat .ofRecord
    l.tempoRecords.toNat 0 p
  let (gates, p) ← readTable fault .gate l.gateStride.toNat (.ofRecord .gate)
    l.gateRecords.toNat 0 p
  return ⟨games, tempos, gates, p.offset⟩

/-- The records at or past the base. -/
def Records.report (r : Records) (base : UInt32) : Report where
  base := base
  games := (r.games ++ r.gates).filter fun c => base ≤ c.start
  tempos := r.tempos.filter fun t => base ≤ t.position

def scanNote (size : Nat) (r : Report) : Journal.Entry where
  level := .debug
  fields := [("component", .text "c00")]
  message :=
    s!"Scanned {size} bytes of tables with base {Numeral.address r.base}: " ++
      s!"{r.games.length} game/gate and {r.tempos.length} tempo candidates"

structure Scan where
  notes : List Journal.Entry
  result : Except ScanError Report

def scan (l : Layout) (source : Source) (base : UInt32) : Scan :=
  match l.check with
  | .error e => ⟨[], .error (.layout e)⟩
  | .ok () =>
    match readRecords l source with
    | .error s => ⟨[], .error (.table s)⟩
    | .ok records =>
      let report := records.report base
      ⟨[scanNote records.size report], .ok report⟩

/-- The sizes of the buffers that a scan of so many bytes asks for: one for the records of each
table that it comes to. -/
def Layout.buffers (l : Layout) (length : Nat) : List Nat :=
  let tempos := l.gameRecords.toNat * l.gameStride.toNat + l.tableGap.toNat
  let gates := tempos + l.tempoRecords.toNat * l.tempoStride.toNat
  [(0, l.gameRecords, l.gameStride), (tempos, l.tempoRecords, l.tempoStride),
    (gates, l.gateRecords, l.gateStride)].filterMap fun (origin, records, stride) =>
      if origin ≤ length ∧ 0 < records then some stride.toNat else none

/-- A scan with no more than `room` bytes for a buffer. It is given up if it asks for more. -/
def scanWithin (room : Nat) (l : Layout) (source : Source) (base : UInt32) : Option Scan :=
  match l.check with
  | .error _ => some (scan l source base)
  | .ok () =>
    if (l.buffers source.data.length).all (· ≤ room) then some (scan l source base) else none

end FlowPack.Archive
