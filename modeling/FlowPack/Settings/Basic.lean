import FlowPack.Archive.Offset
import FlowPack.Archive.Variant
import FlowPack.Journal.Level
import FlowPack.Script.Basic

namespace FlowPack

/-- Whether finished files are flushed to the device before they appear under their name. -/
inductive SyncMode where
  | none
  | immediate
  | unknown (code : Int)
  deriving DecidableEq, Repr

namespace SyncMode

def ofCode (n : Int) : SyncMode :=
  if n = 0 then none else if n = 1 then immediate else unknown n

def name : SyncMode → String
  | none => "none"
  | immediate => "immediate"
  | unknown n => s!"sync({n})"

def parse? (t : Text) : Option SyncMode :=
  match t.word? with
  | some "none" => some none
  | some "false" => some none
  | some "immediate" => some immediate
  | some "true" => some immediate
  | _ => Option.none

end SyncMode

structure Settings where
  version : Int := 1
  logLevel : Text := .ofString "info"
  /-- Annotation tags of pointers. A list that was taken away differs from an empty one only in
  how it is shown. -/
  pointerTags : Option (List Int) := some [0]
  stringTags : Option (List Int) := some [1, 2]
  sync : SyncMode := .immediate
  variant : Text := .ofString "rhmpatch"
  /-- The base of archives; empty to take that of the variant. -/
  baseOffset : Text := []
  namesFile : Text := []
  deriving DecidableEq, Repr

inductive InvalidSettings where
  | version (n : Int)
  | level (t : Text)
  | tagTooLarge (tag : Int)
  | tagInBoth (tag : Int)
  | noTags
  | syncMode (code : Int)
  | variant (t : Text)
  | baseOffset (t : Text)
  deriving DecidableEq, Repr

def InvalidSettings.reason : InvalidSettings → String
  | version n => s!"invalid version {n}"
  | level t => Journal.Level.unknownMessage t
  | tagTooLarge tag => s!"annotation tag {tag} does not fit in a byte"
  | tagInBoth tag => s!"annotation tag {tag} is both a pointer and a string tag"
  | noTags => "no annotation tags configured"
  | syncMode code => s!"invalid sync mode {code}"
  | variant t => Archive.Variant.unknownMessage t
  | baseOffset t => "base_offset: " ++ Archive.Offset.invalidMessage t

namespace Settings

def pointers (s : Settings) : List Int := s.pointerTags.getD []

def strings (s : Settings) : List Int := s.stringTags.getD []

/-- The first fault among tags: one that is no byte, or one taken by another list. -/
def tagFault? (taken : List Int) : List Int → Option InvalidSettings
  | [] => none
  | tag :: rest =>
    if tag < 0 ∨ 255 < tag then some (.tagTooLarge tag)
    else if tag ∈ taken then some (.tagInBoth tag)
    else tagFault? taken rest

def checkTags (s : Settings) : Except InvalidSettings Unit :=
  match tagFault? [] s.pointers with
  | some e => .error e
  | none =>
    match tagFault? s.pointers s.strings with
    | some e => .error e
    | none => if s.pointers = [] ∧ s.strings = [] then .error .noTags else .ok ()

def check (s : Settings) : Except InvalidSettings Unit :=
  if s.version ≤ 0 then .error (.version s.version)
  else if Journal.Level.parse? s.logLevel = none then .error (.level s.logLevel)
  else
    match s.checkTags with
    | .error e => .error e
    | .ok () =>
      match s.sync with
      | .unknown code => .error (.syncMode code)
      | _ =>
        if Archive.Variant.parse? s.variant = none then .error (.variant s.variant)
        else if s.baseOffset ≠ [] ∧ Archive.Offset.parse? s.baseOffset = none then
          .error (.baseOffset s.baseOffset)
        else .ok ()

def tagByte (n : Int) : UInt8 := UInt8.ofNat (n % 256).toNat

def tagSets (s : Settings) : Script.TagSets := ⟨s.pointers.map tagByte, s.strings.map tagByte⟩

def level (s : Settings) : Journal.Level := (Journal.Level.parse? s.logLevel).getD .info

def syncs (s : Settings) : Bool := s.sync = .immediate

end Settings

inductive BaseError where
  | offset (t : Text)
  | variant (t : Text)
  deriving DecidableEq, Repr

def BaseError.message : BaseError → String
  | offset t => Archive.Offset.invalidMessage t
  | variant t => Archive.Variant.unknownMessage t

def variantBase (t : Text) : Except BaseError UInt32 :=
  match Archive.Variant.parse? t with
  | some v => .ok v.base
  | none => .error (.variant t)

/-- The base of archives: the explicit one, else that of the variant. -/
def Settings.base (s : Settings) : Except BaseError UInt32 :=
  if s.baseOffset = [] then variantBase s.variant
  else
    match Archive.Offset.parse? s.baseOffset with
    | some w => .ok w
    | none => .error (.offset s.baseOffset)

end FlowPack
