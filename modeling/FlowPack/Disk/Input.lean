import FlowPack.Compression.Codec
import FlowPack.Disk.Tree

namespace FlowPack

inductive InputError where
  | opening (path : String) (e : FileError)
  | reading (path : String) (e : FileError)
  | badStream (path : String)
  deriving DecidableEq, Repr

def InputError.message : InputError → String
  | opening path e => s!"failed to open {path}: {e.message}"
  | reading path e => s!"failed to read {path}: {e.message}"
  | badStream path => s!"failed to read {path}: {Fault.badStream.text}"

/-- How compressed data is expanded. -/
abbrev Unpacker := Codec → Bytes → Source

def unpackFile : Unpacker := Codec.decompress false

structure Input where
  codec : Codec
  source : Source
  deriving DecidableEq, Repr

def openInput (unpack : Unpacker) (d : Disk) (path : String) : Except InputError Input :=
  match d.content path with
  | .error (.reading p c) => .error (.reading path (.reading p c))
  | .error e => .error (.opening path e)
  | .ok data =>
    let codec := Codec.detect data
    .ok ⟨codec, unpack codec data⟩

/-- Read a whole file; the codec is known even when the stream turns out to be bad. -/
def readInput (unpack : Unpacker) (d : Disk) (path : String) :
    Codec × Except InputError Bytes :=
  match openInput unpack d path with
  | .error e => (.none, .error e)
  | .ok input =>
    match input.source.fault with
    | none => (input.codec, .ok input.source.data)
    | some _ => (input.codec, .error (.badStream path))

end FlowPack
