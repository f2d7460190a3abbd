import FlowPack.Conversion
import FlowPack.Disk.Input
import FlowPack.Disk.StagedFile

namespace FlowPack

inductive FileConversionError where
  | input (e : InputError)
  | conversion (path : String) (e : ConversionError)
  | encoding (path : String) (e : Container.EncodeError)
  | output (path : String) (e : StageError)
  deriving DecidableEq, Repr

def FileConversionError.message : FileConversionError → String
  | input e => e.message
  | conversion path e => s!"failed to convert {path}: {e.message}"
  | encoding path e => s!"failed to encode {path}: {e.message}"
  | output path e => s!"failed to write {path}: {e.message}"

structure FileSummary where
  input : String
  output : String
  codec : Codec
  summary : Summary
  deriving DecidableEq, Repr

structure FileConversion where
  notes : List Journal.Entry
  result : Except FileConversionError FileSummary
  disk : Disk

def tempoNote (path : String) : Journal.Entry where
  level := .warn
  fields := [("tempo", .text path)]
  message := "Tempo files are not supported yet, ignoring"

def unpackNote (codec : Codec) (path : String) : Journal.Entry :=
  .plain .debug s!"Decompressing {codec.name} input {path}"

def writtenNote (s : FileSummary) : Journal.Entry where
  level := .info
  fields := [("digest", .text (Numeral.hexLower 16 s.summary.digest.toNat)),
    ("instructions", .int s.summary.instructions),
    ("pointers", .int (s.summary.stringRefs + s.summary.streamPointers))]
  message := s!"Wrote {s.output} ({s.summary.size} bytes)"

structure Converter where
  unpack : Unpacker
  tags : Script.TagSets
  sync : Bool

namespace Converter

def publishContainer (c : Converter) (output : String) (container : Container) (d : Disk) :
    Except FileConversionError Unit × Disk :=
  match container.encode with
  | .error e => (.error (.encoding output e), d)
  | .ok data =>
    match publishBytes output c.sync data d with
    | (.error e, d) => (.error (.output output e), d)
    | (.ok (), d) => (.ok (), d)

/-- Convert the file at `input` to `output`. Tempo files are passed over with a warning. -/
def convertFile (c : Converter) (input output : String) (tempos : List String) (d : Disk) :
    FileConversion :=
  let own (entries : List Journal.Entry) : List Journal.Entry :=
    entries.map (·.within conversionFields)
  let warnings := own (tempos.map tempoNote)
  match openInput c.unpack d input with
  | .error e => ⟨warnings, .error (.input e), d⟩
  | .ok source =>
    let opened := warnings ++
      if source.codec = .none then [] else own [unpackNote source.codec input]
    let conversion := convert c.tags source.source
    let notes := opened ++ conversion.notes
    match conversion.result with
    | .error e => ⟨notes, .error (.conversion input e), d⟩
    | .ok r =>
      match c.publishContainer output r.container d with
      | (.error e, d) => ⟨notes, .error e, d⟩
      | (.ok (), d) =>
        let s : FileSummary := ⟨input, output, source.codec, r.summary⟩
        ⟨notes ++ own [writtenNote s], .ok s, d⟩

end Converter

end FlowPack
