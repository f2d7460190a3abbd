import FlowPack.Script.Basic
import FlowPack.Text

namespace FlowPack.Script

structure Argument where
  value : UInt32
  tag : Option UInt8 := none
  /-- Whether the value counts from the start of the string data. -/
  inStrings : Bool := false
  deriving DecidableEq, Repr

namespace Argument

def int (v : UInt32) : Argument := { value := v }

def label (target : UInt32) : Argument := { value := target, tag := some TagSets.labelTag }

def tagged (tag : UInt8) (v : UInt32) : Argument := { value := v, tag := some tag }

end Argument

structure Draft where
  command : UInt16
  inlineArg : UInt32
  args : List Argument
  deriving DecidableEq, Repr

def Draft.opcode (d : Draft) : Opcode := .pack d.command d.inlineArg d.args.length

/-- The annotation records of the arguments, the first of which has number `i`. -/
def annotationRecords (i : Nat) : List Argument → List UInt32
  | [] => []
  | a :: rest =>
    match a.tag with
    | some tag => (UInt32.ofNat i <<< 8 ||| tag.toUInt32) :: annotationRecords (i + 1) rest
    | none => annotationRecords (i + 1) rest

def Draft.words (d : Draft) (flowSize : UInt32) : List UInt32 :=
  let records := annotationRecords 0 d.args
  let block := if records.isEmpty then [] else blockMark :: UInt32.ofNat records.length :: records
  block ++ d.opcode.word ::
    d.args.map fun a => if a.inStrings then a.value + flowSize else a.value

structure Assembler where
  header : Header
  drafts : List Draft := []
  /-- Length of the instruction stream so far, without annotation blocks. -/
  flowSize : UInt32 := 0
  strings : Bytes := []
  deriving DecidableEq, Repr

structure TooManyArgs where
  given : Nat
  deriving DecidableEq, Repr

def TooManyArgs.message (e : TooManyArgs) : String :=
  s!"too many arguments given to a command: {e.given}"

def utf16Units (c : Char) : List UInt16 :=
  let n := c.toNat
  if n < 0x10000 then [n.toUInt16]
  else [(0xD800 + (n - 0x10000) / 1024).toUInt16, (0xDC00 + (n - 0x10000) % 1024).toUInt16]

def unitBytes (u : UInt16) : Bytes := [u.toUInt8, (u >>> 8).toUInt8]

/-- The UTF-16 encoding of a text, least significant bytes first. Stray bytes are encoded as the
replacement character. -/
def utf16Bytes (t : Text) : Bytes :=
  t.flatMap fun g => (utf16Units g.shown).flatMap unitBytes

namespace Assembler

def here (a : Assembler) : UInt32 := a.flowSize

def emit (a : Assembler) (d : Draft) : Except TooManyArgs Assembler :=
  if d.args.length > maxArgs then .error ⟨d.args.length⟩
  else .ok { a with
    drafts := a.drafts ++ [d]
    flowSize := a.flowSize + UInt32.ofNat (4 * (1 + d.args.length)) }

def addRaw (a : Assembler) (data : Bytes) : Assembler := { a with strings := a.strings ++ data }

def stringHere (a : Assembler) (tag : UInt8) : Argument :=
  { value := UInt32.ofNat a.strings.length, tag := some tag, inStrings := true }

/-- Store a text as UTF-16 closed by zero bytes up to a multiple of four. -/
def addUnicode (a : Assembler) (t : Text) : Argument × Assembler :=
  let stored := a.strings ++ utf16Bytes t
  let pad := if stored.length % 4 = 2 then 2 else 4
  (a.stringHere TagSets.unicodeTag, { a with strings := stored ++ List.replicate pad 0 })

def addAscii (a : Assembler) (t : Text) : Argument × Assembler :=
  let data := t.bytes
  (a.stringHere TagSets.asciiTag,
    { a with strings := a.strings ++ data ++ List.replicate (4 - data.length % 4) 0 })

def bytes (a : Assembler) : Bytes :=
  let words := a.header.index :: a.header.start :: a.header.assets ::
    (a.drafts.flatMap (·.words a.flowSize) ++ [endMark])
  words.flatMap Word.bytes ++ a.strings

end Assembler

end FlowPack.Script
