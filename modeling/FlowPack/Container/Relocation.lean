import FlowPack.Container.Basic
import FlowPack.Text.Numeral

namespace FlowPack

open Script (Pointer Program)

inductive RelocationError where
  | outside (offset base : UInt32)
  | inward (offset value base : UInt32)
  deriving DecidableEq, Repr

namespace RelocationError

def place (offset value base : UInt32) : String :=
  s!"string reference at flow offset 0x{Numeral.hex 1 offset.toNat} " ++
    s!"(value 0x{Numeral.hex 1 value.toNat}, base 0x{Numeral.hex 1 base.toNat})"

def message : RelocationError → String
  | outside offset base =>
    place offset 0 base ++
      ": string reference cannot be relocated: argument outside the instruction stream"
  | inward offset value base =>
    place offset value base ++
      ": string reference cannot be relocated: value points inside the instruction stream"

end RelocationError

def relocateOne (base : UInt32) (flow : Bytes) (p : Pointer) : Except RelocationError Bytes :=
  match Word.at? flow p.offset.toNat with
  | none => .error (.outside p.offset base)
  | some value =>
    if value < base then .error (.inward p.offset value base)
    else .ok (Word.put flow p.offset.toNat (value - base))

def relocateFrom (base : UInt32) (flow : Bytes) : List Pointer → Bytes × Option RelocationError
  | [] => (flow, none)
  | p :: rest =>
    if p.kind = .stringRef then
      match relocateOne base flow p with
      | .error e => (flow, some e)
      | .ok flow => relocateFrom base flow rest
    else relocateFrom base flow rest

/-- Make every string reference relative to the string data. Earlier references stay relative
when a later one fails. -/
def relocate (flow : Bytes) (pointers : List Pointer) : Bytes × Option RelocationError :=
  relocateFrom (UInt32.ofNat flow.length) flow pointers

/-- The string references of a relocated stream that point at or past the end of the string
data. -/
def danglingStrings (flow : Bytes) (pointers : List Pointer) (stringsLength : Nat) :
    List Pointer :=
  pointers.filter fun p =>
    p.kind = .stringRef &&
      match Word.at? flow p.offset.toNat with
      | some v => stringsLength ≤ v.toNat
      | none => false

def Container.ofProgram (p : Program) : Except RelocationError Container :=
  match relocate p.flow p.pointers with
  | (_, some e) => .error e
  | (flow, none) =>
    .ok { start := p.header.start, code := flow, pointers := p.pointers, strings := p.strings }

end FlowPack
