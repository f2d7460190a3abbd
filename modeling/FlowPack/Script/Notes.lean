import FlowPack.Journal.Logger
import FlowPack.Script.Decoder

namespace FlowPack.Script

def StrayTag.entry (s : StrayTag) : Journal.Entry where
  level := .warn
  fields := Journal.Fields.setAll []
    [("offset", .text s!"0x{Numeral.hex 1 s.offset}"), ("tag", .int s.tag.toNat),
      ("arg", .int s.index.toNat)]
  message := "Unrecognized annotation tag, treating argument as a plain value"

end FlowPack.Script
