namespace FlowPack.Archive

inductive Table where
  | game
  | tempo
  | gate
  deriving DecidableEq, Repr

namespace Table

def name : Table → String
  | game => "game"
  | tempo => "tempo"
  | gate => "gate"

def nameOfCode (n : Int) : String :=
  if n = 0 then game.name
  else if n = 1 then tempo.name
  else if n = 2 then gate.name
  else s!"table({n})"

end Table

structure Layout where
  gameRecords : Int
  gameStride : Int
  tableGap : Int
  tempoRecords : Int
  tempoStride : Int
  gateRecords : Int
  gateStride : Int
  deriving DecidableEq, Repr

/-- The fields read from a game or gate record: a word to skip, start and assets. -/
def entryFieldsSize : Int := 12

def tempoFieldsSize : Int := 16

inductive LayoutError where
  | negative
  | entryStride
  | tempoStride
  deriving DecidableEq, Repr

def LayoutError.message : LayoutError → String
  | negative => "invalid layout: negative record count or gap"
  | entryStride => s!"invalid layout: entry stride must be at least {entryFieldsSize} bytes"
  | tempoStride => s!"invalid layout: tempo stride must be at least {tempoFieldsSize} bytes"

namespace Layout

def standard : Layout where
  gameRecords := 0x68
  gameStride := 0x34
  tableGap := 0x68
  tempoRecords := 0x1DD
  tempoStride := 0x10
  gateRecords := 0x10
  gateStride := 0x24

def extent (l : Layout) : Int :=
  l.gameRecords * l.gameStride + l.tableGap + l.tempoRecords * l.tempoStride +
    l.gateRecords * l.gateStride

def size (l : Layout) : Int := l.extent.bmod 18446744073709551616

/-- Every record has to hold the fields read from it. -/
def check (l : Layout) : Except LayoutError Unit :=
  if l.gameRecords < 0 ∨ l.tempoRecords < 0 ∨ l.gateRecords < 0 ∨ l.tableGap < 0 then
    .error .negative
  else if l.gameStride < entryFieldsSize ∨ l.gateStride < entryFieldsSize then
    .error .entryStride
  else if l.tempoStride < tempoFieldsSize then .error .tempoStride
  else .ok ()

end Layout

end FlowPack.Archive
