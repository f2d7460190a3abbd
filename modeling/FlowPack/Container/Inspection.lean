import FlowPack.Container.Reader
import FlowPack.Disk.Input

namespace FlowPack

open Script (PointerKind)

namespace Container

structure PointerValue where
  offset : UInt32
  kind : PointerKind
  value : UInt32
  deriving DecidableEq, Repr

def pointerValues (c : Container) : List PointerValue :=
  c.pointers.map fun p => ⟨p.offset, p.kind, c.word p.offset⟩

end Container

structure Inspection where
  file : String
  size : UInt32
  version : UInt32
  start : UInt32
  digest : UInt64
  sections : List Container.Extent
  pointers : List Container.PointerValue
  deriving DecidableEq, Repr

inductive InspectionError where
  | input (e : InputError)
  | container (path : String) (e : Container.ReadError)
  | encoding (e : Container.EncodeError)
  deriving DecidableEq, Repr

def InspectionError.message : InspectionError → Text
  | input e => .ofString e.message
  | container path e => .ofString s!"failed to read {path}: " ++ e.message
  | encoding e => .ofString e.message

namespace Inspection

def ofContainer (file : String) (c : Container) : Except Container.EncodeError Inspection :=
  match c.digest with
  | .error e => .error e
  | .ok digest => .ok {
      file, digest
      size := c.header.size
      version := c.header.version
      start := c.start
      sections := c.layout
      pointers := c.pointerValues }

def ofFile (unpack : Unpacker) (d : Disk) (path : String) : Except InspectionError Inspection :=
  match (readInput unpack d path).2 with
  | .error e => .error (.input e)
  | .ok data =>
    match Container.read data with
    | .error e => .error (.container path e)
    | .ok c =>
      match ofContainer path c with
      | .error e => .error (.encoding e)
      | .ok i => .ok i

end Inspection

end FlowPack
