import FlowPack.Text.Quoted

namespace FlowPack.Archive

inductive Variant where
  | rhmpatch
  | saltwaterUS
  | saltwaterEU
  | saltwaterJP
  | saltwaterKR
  deriving DecidableEq, Repr

namespace Variant

def name : Variant → String
  | rhmpatch => "rhmpatch"
  | saltwaterUS => "saltwater-us"
  | saltwaterEU => "saltwater-eu"
  | saltwaterJP => "saltwater-jp"
  | saltwaterKR => "saltwater-kr"

def base : Variant → UInt32
  | rhmpatch => 0x0C000000
  | _ => 0x060A9008

def all : List Variant := [rhmpatch, saltwaterUS, saltwaterEU, saltwaterJP, saltwaterKR]

/-- The variant a name stands for; case and outer white space are ignored. -/
def parse? (t : Text) : Option Variant :=
  match t.trim.word? with
  | some w => all.find? fun v => v.name = w
  | none => none

def unknownMessage (t : Text) : String := "unknown archive variant: " ++ t.quoted

end Variant

end FlowPack.Archive
