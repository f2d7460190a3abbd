namespace FlowPack

abbrev Bytes := List UInt8

namespace Word

def bytes (w : UInt32) : Bytes :=
  [w.toUInt8, (w >>> 8).toUInt8, (w >>> 16).toUInt8, (w >>> 24).toUInt8]

def ofBytes (a b c d : UInt8) : UInt32 :=
  a.toUInt32 ||| (b.toUInt32 <<< 8) ||| (c.toUInt32 <<< 16) ||| (d.toUInt32 <<< 24)

def take? : Bytes → Option (UInt32 × Bytes)
  | a :: b :: c :: d :: rest => some (ofBytes a b c d, rest)
  | _ => none

/-- The word at a byte offset, when it lies wholly inside. -/
def at? (data : Bytes) (offset : Nat) : Option UInt32 :=
  (take? (data.drop offset)).map (·.1)

def put (data : Bytes) (offset : Nat) (w : UInt32) : Bytes :=
  data.take offset ++ bytes w ++ data.drop (offset + 4)

@[simp] theorem length_bytes (w : UInt32) : (bytes w).length = 4 := rfl

theorem length_of_take? {data rest : Bytes} {w : UInt32} (h : take? data = some (w, rest)) :
    data.length = rest.length + 4 := by
  unfold take? at h
  split at h
  · obtain ⟨_, rfl⟩ := Prod.mk.injEq .. ▸ Option.some.inj h
    rfl
  · cases h

end Word

/-- Why a source stopped delivering bytes. An error in other words may pass on that some data
`ended`, or that they did so too `early`. -/
inductive Fault where
  | device (text : String)
  | badStream
  | cutOff
  | wrapped (text : String) (ended early : Bool)
  deriving DecidableEq, Repr

namespace Fault

def text : Fault → String
  | device text => text
  | badStream => "invalid compressed data"
  | cutOff => "unexpected EOF"
  | wrapped text _ _ => text

def saysEnded : Fault → Bool
  | wrapped _ ended _ => ended
  | _ => false

/-- An end that comes too early counts as well. -/
def saysShort : Fault → Bool
  | cutOff => true
  | wrapped _ ended early => ended || early
  | _ => false

end Fault

/-- A finite run of bytes, after which the source ends or breaks off. -/
structure Source where
  data : Bytes
  fault : Option Fault := none
  deriving DecidableEq, Repr

end FlowPack
