import FlowPack.Container.Basic
import FlowPack.Text.Quoted

namespace FlowPack.Container

open Script (Pointer)

inductive ReadError where
  | unreadable (fault : Fault)
  | endOfData (offset : Nat)
  | fileMagic (found : Bytes)
  | version (found : UInt32)
  | totalSize (declared : UInt32) (actual : Nat)
  | sectionSize (magic : Bytes) (offset : Nat) (declared : UInt32)
  | smallFlow (size : UInt32)
  | smallPointers (size : UInt32)
  | pointerCount (size count : UInt32)
  | unknownSection (magic : Bytes) (offset : Nat)
  | temposUnsupported
  | trailing (count : Nat)
  | missingSection
  | pointerOutside (offset : UInt32)
  deriving DecidableEq, Repr

inductive Cause where
  | device
  | corrupt
  | magic
  | version
  | tempos
  deriving DecidableEq, Repr

def Cause.text : Cause → String
  | device => "failed to read btks data"
  | corrupt => "corrupt btks data"
  | magic => "invalid btks magic"
  | version => "btks version mismatch"
  | tempos => "TMPO sections are not supported yet"

namespace ReadError

def cause : ReadError → Cause
  | unreadable _ => .device
  | fileMagic _ | unknownSection .. => .magic
  | version _ => .version
  | temposUnsupported => .tempos
  | endOfData _ | totalSize .. | sectionSize .. | smallFlow _ | smallPointers _
  | pointerCount .. | trailing _ | missingSection | pointerOutside _ => .corrupt

/-- What an error says beyond its cause. The magic of a section with a wrong size is copied as
it is. -/
def detail : ReadError → Text
  | unreadable fault => .ofString s!": {fault.text}"
  | endOfData offset => .ofString s!": unexpected end of data at byte 0x{Numeral.hex 1 offset}"
  | fileMagic found =>
    .ofString (": got " ++ (Text.ofBytes found).quoted ++ ", expected " ++
      (Text.ofBytes Container.fileMagic).quoted)
  | version found => .ofString s!": expected 0, got {found}"
  | totalSize declared actual => .ofString s!": header size {declared}, file is {actual} bytes"
  | sectionSize magic offset declared =>
    .ofString ": " ++ Text.ofBytes magic ++
      .ofString s!" section at byte 0x{Numeral.hex 1 offset} declares size {declared}"
  | smallFlow size => .ofString s!": FLOW section too small: {size} bytes"
  | smallPointers size => .ofString s!": PTRO section too small: {size} bytes"
  | pointerCount size count =>
    .ofString s!": PTRO section of {size} bytes cannot hold {count} records"
  | unknownSection magic offset =>
    .ofString (": unknown section " ++ (Text.ofBytes magic).quoted ++
      s!" at byte 0x{Numeral.hex 1 offset}")
  | temposUnsupported => []
  | trailing count => .ofString s!": {count} trailing bytes after last section"
  | missingSection => .ofString ": missing required section"
  | pointerOutside offset =>
    .ofString s!": pointer at 0x{Numeral.hex 1 offset.toNat} outside the FLOW section"

def message (e : ReadError) : Text := .ofString e.cause.text ++ e.detail

end ReadError

/-- Read and check the header. The fields read before an error are returned with it. -/
def readHeader (data : Bytes) : Header × Option ReadError :=
  match data with
  | a :: b :: c :: d :: rest =>
    let magic := [a, b, c, d]
    if magic ≠ Container.fileMagic then ({ magic }, some (.fileMagic magic))
    else match Word.take? rest with
    | none => ({ magic }, some (.endOfData 4))
    | some (size, rest) =>
      match Word.take? rest with
      | none => ({ magic, size }, some (.endOfData 8))
      | some (version, rest) =>
        if version ≠ Container.version then ({ magic, size, version }, some (.version version))
        else match Word.take? rest with
        | none => ({ magic, size, version }, some (.endOfData 12))
        | some (sections, _) =>
          let h : Header := { magic, size, version, sections }
          if size.toNat = data.length then (h, none)
          else (h, some (.totalSize size data.length))
  | _ => ({}, some (.endOfData 0))

structure Found where
  flow : Option (UInt32 × Bytes) := none
  pointers : Option (List Pointer) := none
  strings : Option Bytes := none
  deriving DecidableEq, Repr

def readPointers : Bytes → List Pointer
  | a :: b :: c :: d :: k :: rest => ⟨Word.ofBytes a b c d, ⟨k⟩⟩ :: readPointers rest
  | _ => []

def readSection (found : Found) (magic : Bytes) (offset : Nat) (size : UInt32) (body : Bytes) :
    Except ReadError Found :=
  if magic = Section.flowMagic then
    match Word.take? body with
    | none => .error (.smallFlow size)
    | some (start, code) => .ok { found with flow := some (start, code) }
  else if magic = Section.pointersMagic then
    match Word.take? body with
    | none => .error (.smallPointers size)
    | some (count, records) =>
      if size.toNat ≠ 12 + 5 * count.toNat then .error (.pointerCount size count)
      else .ok { found with pointers := some (readPointers records) }
  else if magic = Section.stringsMagic then .ok { found with strings := some body }
  else if magic = Section.temposMagic then .error .temposUnsupported
  else .error (.unknownSection magic offset)

def readSections : Nat → Nat → Bytes → Found → Except ReadError (Found × Bytes)
  | 0, _, rest, found => .ok (found, rest)
  | n + 1, offset, rest, found =>
    match rest with
    | a :: b :: c :: d :: rest₁ =>
      let magic := [a, b, c, d]
      match Word.take? rest₁ with
      | none => .error (.endOfData (offset + 4))
      | some (size, rest₂) =>
        if size < 8 ∨ rest.length < size.toNat then .error (.sectionSize magic offset size)
        else
          let bodyLength := size.toNat - 8
          match readSection found magic offset size (rest₂.take bodyLength) with
          | .error e => .error e
          | .ok found =>
            readSections n (offset + size.toNat) (rest₂.drop bodyLength) found
    | _ => .error (.endOfData offset)

/-- Check that everything needed was found and every pointer lies inside the code. -/
def assemble (found : Found) : Except ReadError Container :=
  match found.flow, found.pointers, found.strings with
  | some (start, code), some pointers, some strings =>
    match pointers.find? fun p => !p.fits code.length with
    | some p => .error (.pointerOutside p.offset)
    | none => .ok { start, code, pointers, strings }
  | _, _, _ => .error .missingSection

def read (data : Bytes) : Except ReadError Container :=
  match readHeader data with
  | (_, some e) => .error e
  | (h, none) =>
    match readSections h.sections.toNat 16 (data.drop 16) {} with
    | .error e => .error e
    | .ok (found, []) => assemble found
    | .ok (_, rest) => .error (.trailing rest.length)

end FlowPack.Container
