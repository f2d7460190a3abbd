import FlowPack.Container.Relocation
import FlowPack.Script.Notes

namespace FlowPack

open Script (DecodeError Pointer Program TagSets)

structure Summary where
  index : UInt32
  start : UInt32
  instructions : Nat
  stringRefs : Nat
  streamPointers : Nat
  dangling : Nat
  flowSize : Nat
  stringSize : Nat
  size : UInt32
  digest : UInt64
  deriving DecidableEq, Repr

inductive ConversionError where
  | decoding (e : DecodeError)
  | relocation (e : RelocationError)
  | encoding (e : Container.EncodeError)
  deriving DecidableEq, Repr

def ConversionError.message : ConversionError → String
  | decoding e => e.message
  | relocation e => e.message
  | encoding e => e.message

structure Converted where
  container : Container
  summary : Summary
  deriving DecidableEq, Repr

structure Conversion where
  notes : List Journal.Entry
  result : Except ConversionError Converted

def conversionFields : Journal.Fields := [("component", .text "convert")]

def danglingNote (stringSize : Nat) (p : Pointer) : Journal.Entry where
  level := .warn
  fields := [("offset", .text s!"0x{Numeral.hex 1 p.offset.toNat}")]
  message :=
    s!"String reference points past the end of the string data ({stringSize} bytes)"

def Program.convert (p : Program) : Conversion :=
  match Container.ofProgram p with
  | .error e => ⟨[], .error (.relocation e)⟩
  | .ok c =>
    let dangling := danglingStrings c.code c.pointers c.strings.length
    let notes := dangling.map (danglingNote c.strings.length)
    match c.digest with
    | .error e => ⟨notes, .error (.encoding e)⟩
    | .ok digest =>
      let stringRefs := p.pointers.countP (·.kind = .stringRef)
      let summary : Summary :=
        { index := p.header.index
          start := p.header.start
          instructions := p.instructions.length
          stringRefs
          streamPointers := p.pointers.length - stringRefs
          dangling := dangling.length
          flowSize := p.flow.length
          stringSize := p.strings.length
          size := c.header.size
          digest }
      ⟨notes, .ok ⟨c, summary⟩⟩

/-- Decode, relocate and pack. The lines carry the fields of the conversion. -/
def convert (tags : TagSets) (source : Source) : Conversion :=
  let step := Script.decode tags source
  let warnings := step.strays.map (·.entry)
  match step.result with
  | .error e => ⟨warnings.map (·.within conversionFields), .error (.decoding e)⟩
  | .ok p =>
    let c := Program.convert p
    ⟨(warnings ++ c.notes).map (·.within conversionFields), c.result⟩

end FlowPack
