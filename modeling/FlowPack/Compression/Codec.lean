import FlowPack.Compression.Snappy
import FlowPack.Compression.Zstd.Frame

namespace FlowPack

inductive Codec where
  | none
  | zstd
  | snappy
  deriving DecidableEq, Repr

namespace Codec

def name : Codec → String
  | none => "none"
  | zstd => "zstd"
  | snappy => "snappy"

def ofCode? (n : Int) : Option Codec :=
  if n = 0 then some none
  else if n = 1 then some zstd
  else if n = 2 then some snappy
  else Option.none

def nameOfCode (n : Int) : String :=
  match ofCode? n with
  | some c => c.name
  | Option.none => s!"codec({n})"

def unknownMessage (n : Int) : String := "unknown compression codec: " ++ nameOfCode n

def zstdMagic : Bytes := [0x28, 0xB5, 0x2F, 0xFD]

def snappyMagic : Bytes := [0xFF, 0x06, 0x00, 0x00] ++ Snappy.identifier

def detect (head : Bytes) : Codec :=
  if zstdMagic.isPrefixOf head then zstd
  else if snappyMagic.isPrefixOf head then snappy
  else none

/-- Decompress data. A seekable source lets the reader jump over what it does not need. -/
def decompress (seekable : Bool) (c : Codec) (data : Bytes) : Source :=
  match c with
  | none => ⟨data, Option.none⟩
  | zstd => Zstd.decode data
  | snappy => Snappy.decode seekable data

end Codec

end FlowPack
