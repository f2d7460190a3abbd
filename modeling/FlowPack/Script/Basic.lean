import FlowPack.Bytes

namespace FlowPack.Script

/-- An instruction word: command number in bits 0 to 9, argument count in bits 10 to 13,
inline argument in bits 14 to 31. -/
structure Opcode where
  word : UInt32
  deriving DecidableEq, Repr

namespace Opcode

def command (o : Opcode) : UInt16 := (o.word &&& 0x3FF).toUInt16

def argCount (o : Opcode) : Nat := ((o.word >>> 10) &&& 0xF).toNat

def inlineArg (o : Opcode) : UInt32 := o.word >>> 14

def pack (command : UInt16) (inlineArg : UInt32) (argCount : Int) : Opcode :=
  let low : UInt32 := command.toUInt32 &&& 0x3FF
  let count : UInt32 := UInt32.ofNat (argCount % 16).toNat <<< 10
  ⟨low ||| count ||| inlineArg <<< 14⟩

end Opcode

def blockMark : UInt32 := 0xFFFFFFFF

def endMark : UInt32 := 0xFFFFFFFE

def maxArgs : Nat := 15

inductive ArgKind where
  | value
  | string
  | pointer
  deriving DecidableEq, Repr

namespace ArgKind

def name : ArgKind → String
  | value => "value"
  | string => "string"
  | pointer => "pointer"

def ofCode : UInt8 → ArgKind
  | 1 => string
  | 2 => pointer
  | _ => value

end ArgKind

structure PointerKind where
  code : UInt8
  deriving DecidableEq, Repr

namespace PointerKind

def stringRef : PointerKind := ⟨0⟩

def streamPointer : PointerKind := ⟨1⟩

def name (k : PointerKind) : String :=
  if k = stringRef then "string" else if k = streamPointer then "pointer" else "unknown"

def argKind (k : PointerKind) : ArgKind := if k = stringRef then .string else .pointer

end PointerKind

/-- An annotated argument, by its byte offset in the instruction stream. -/
structure Pointer where
  offset : UInt32
  kind : PointerKind
  deriving DecidableEq, Repr

def Pointer.fits (p : Pointer) (length : Nat) : Bool := p.offset.toNat + 4 ≤ length

structure Header where
  index : UInt32 := 0
  start : UInt32 := 0
  assets : UInt32 := 0
  deriving DecidableEq, Repr

structure Instruction where
  offset : UInt32
  opcode : Opcode
  args : List UInt32
  kinds : List ArgKind
  deriving DecidableEq, Repr

def Instruction.size (i : Instruction) : Nat := 4 * (1 + i.args.length)

structure Program where
  header : Header
  flow : Bytes
  instructions : List Instruction
  pointers : List Pointer
  strings : Bytes
  annotated : Nat
  deriving DecidableEq, Repr

/-- The annotation tags that mark pointers and those that mark strings. -/
structure TagSets where
  pointer : List UInt8
  string : List UInt8
  deriving DecidableEq, Repr

namespace TagSets

def labelTag : UInt8 := 0
def unicodeTag : UInt8 := 1
def asciiTag : UInt8 := 2

def standard : TagSets := ⟨[labelTag], [unicodeTag, asciiTag]⟩

/-- A tag in both sets marks a string. -/
def classify (m : TagSets) (tag : UInt8) : Option PointerKind :=
  if tag ∈ m.string then some .stringRef
  else if tag ∈ m.pointer then some .streamPointer
  else none

end TagSets

end FlowPack.Script
