import FlowPack.Bytes

namespace FlowPack.Checksum

def polynomial : UInt32 := 0x82F63B78

def shiftBit (crc : UInt32) : UInt32 :=
  if crc &&& 1 = 1 then (crc >>> 1) ^^^ polynomial else crc >>> 1

def addByte (crc : UInt32) (b : UInt8) : UInt32 :=
  let c := crc ^^^ b.toUInt32
  shiftBit (shiftBit (shiftBit (shiftBit (shiftBit (shiftBit (shiftBit (shiftBit c)))))))

def castagnoli (data : Bytes) : UInt32 := ~~~(data.foldl addByte 0xFFFFFFFF)

/-- The stored form: rotated and shifted, so that a check over stored checks stays useful. -/
def masked (data : Bytes) : UInt32 :=
  let c := castagnoli data
  ((c >>> 15) ||| (c <<< 17)) + 0xA282EAD8

end FlowPack.Checksum
