import FlowPack.Digest
import FlowPack.Script.Basic

namespace FlowPack

open Script (Pointer)

structure TempoChange where
  beats : UInt32
  time : UInt32
  loop : UInt32
  deriving DecidableEq, Repr

structure Tempo where
  id : UInt32
  changes : List TempoChange
  deriving DecidableEq, Repr

structure Container where
  start : UInt32
  code : Bytes
  pointers : List Pointer
  /-- Reserved: a container with tempos cannot be written yet. -/
  tempos : List Tempo := []
  strings : Bytes
  deriving DecidableEq, Repr

namespace Container

def fileMagic : Bytes := [0x42, 0x54, 0x4B, 0x53]

def version : UInt32 := 0

inductive Section where
  | flow (start : UInt32) (code : Bytes)
  | pointers (entries : List Pointer)
  | tempos (entries : List Tempo)
  | strings (data : Bytes)
  deriving DecidableEq, Repr

namespace Section

def name : Section → String
  | flow .. => "FLOW"
  | pointers _ => "PTRO"
  | tempos _ => "TMPO"
  | strings _ => "STRD"

def flowMagic : Bytes := [0x46, 0x4C, 0x4F, 0x57]
def pointersMagic : Bytes := [0x50, 0x54, 0x52, 0x4F]
def temposMagic : Bytes := [0x54, 0x4D, 0x50, 0x4F]
def stringsMagic : Bytes := [0x53, 0x54, 0x52, 0x44]

def magic : Section → Bytes
  | flow .. => flowMagic
  | pointers _ => pointersMagic
  | tempos _ => temposMagic
  | strings _ => stringsMagic

def size : Section → UInt32
  | flow _ code => 12 + UInt32.ofNat code.length
  | pointers entries => 12 + 5 * UInt32.ofNat entries.length
  | tempos _ => 8
  | strings data => 8 + UInt32.ofNat data.length

end Section

def pointerBytes (p : Pointer) : Bytes := Word.bytes p.offset ++ [p.kind.code]

namespace Section

/-- The header and the body of a section. Tempo sections have no layout yet. -/
def parts? (s : Section) : Option (Bytes × Bytes) :=
  let lead := s.magic ++ Word.bytes s.size
  match s with
  | flow start code => some (lead ++ Word.bytes start, code)
  | pointers entries =>
    some (lead ++ Word.bytes (UInt32.ofNat entries.length), entries.flatMap pointerBytes)
  | tempos _ => none
  | strings data => some (lead, data)

end Section

structure Header where
  magic : Bytes := [0, 0, 0, 0]
  size : UInt32 := 0
  version : UInt32 := 0
  sections : UInt32 := 0
  deriving DecidableEq, Repr

def Header.encode (h : Header) : Bytes :=
  h.magic ++ Word.bytes h.size ++ Word.bytes h.version ++ Word.bytes h.sections

def sections (c : Container) : List Section :=
  let tempos := if c.tempos.isEmpty then [] else [Section.tempos c.tempos]
  [.flow c.start c.code, .pointers c.pointers] ++ tempos ++ [.strings c.strings]

def headerOf (ss : List Section) : Header where
  magic := fileMagic
  size := ss.foldl (fun n s => n + s.size) 16
  version := version
  sections := UInt32.ofNat ss.length

def header (c : Container) : Header := headerOf c.sections

inductive EncodeError where
  | temposUnsupported
  | sectionSize (name : String) (written declared : UInt32)
  | totalSize (written : Nat) (declared : UInt32)
  deriving DecidableEq, Repr

def EncodeError.message : EncodeError → String
  | temposUnsupported => "TMPO sections are not supported yet"
  | sectionSize name written declared =>
    "btks layout invariant violated: " ++
      s!"{name} section wrote {written} bytes, declared {declared}"
  | totalSize written declared =>
    s!"btks layout invariant violated: container is {written} bytes, header says {declared}"

def encodeSection (s : Section) : Except EncodeError Bytes :=
  match s.parts? with
  | none => .error .temposUnsupported
  | some (lead, body) =>
    let data := lead ++ body
    let written := UInt32.ofNat data.length
    if written = s.size then .ok data else .error (.sectionSize s.name written s.size)

/-- Encode sections behind a header, comparing every declared size with what was written. -/
def encodeSections (ss : List Section) : Except EncodeError Bytes := do
  let h := headerOf ss
  let bodies ← ss.mapM encodeSection
  let data := h.encode ++ bodies.flatten
  if UInt32.ofNat data.length = h.size then pure data
  else throw (.totalSize data.length h.size)

def encode (c : Container) : Except EncodeError Bytes :=
  if c.tempos.isEmpty then encodeSections c.sections else .error .temposUnsupported

def check (c : Container) : Except EncodeError Unit := c.encode.map fun _ => ()

def digest (c : Container) : Except EncodeError UInt64 := c.encode.map Digest.xxHash64

structure Extent where
  name : String
  offset : UInt32
  size : UInt32
  deriving DecidableEq, Repr

def extentsFrom (offset : UInt32) : List Section → List Extent
  | [] => []
  | s :: rest => ⟨s.name, offset, s.size⟩ :: extentsFrom (offset + s.size) rest

def layout (c : Container) : List Extent := extentsFrom 16 c.sections

def word (c : Container) (offset : UInt32) : UInt32 := (Word.at? c.code offset.toNat).getD 0

end Container

end FlowPack
