namespace FlowPack.Window

abbrev Buffer := Array UInt8

/-- Append `count` bytes, each a copy of the one `distance` before it. -/
def copyBack (distance : Nat) : Nat → Buffer → Buffer
  | 0, out => out
  | count + 1, out => copyBack distance count (out.push (out.getD (out.size - distance) 0))

/-- Append bytes `[from, from + count)` of another buffer. -/
def copyFrom (source : Buffer) : Nat → Nat → Buffer → Buffer
  | 0, _, out => out
  | count + 1, i, out => copyFrom source count (i + 1) (out.push (source.getD i 0))

end FlowPack.Window
