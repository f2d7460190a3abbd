import FlowPack.Disk.Tree

namespace FlowPack

structure StagedFile where
  path : String
  location : Location
  isOpen : Bool := true
  written : Nat := 0
  deriving DecidableEq, Repr

inductive StageError where
  | create (e : FileError)
  | rename (e : FileError)
  | closed
  deriving DecidableEq, Repr

def StageError.message : StageError → String
  | create e => "failed to create temporary file: " ++ e.message
  | rename e => "failed to rename temp file: " ++ e.message
  | closed => "file already closed"

namespace StagedFile

def temp (f : StagedFile) : String := Path.tempOf f.path

def new (path : String) (d : Disk) : Except StageError (StagedFile × Disk) :=
  match d.create (Path.tempOf path) with
  | .error e => .error (.create e)
  | .ok (l, d) => .ok ({ path, location := l }, d)

def write (f : StagedFile) (data : Bytes) (d : Disk) : Except StageError (StagedFile × Disk) :=
  if f.isOpen then
    .ok ({ f with written := f.written + data.length }, d.append f.location data)
  else .error .closed

def sync (f : StagedFile) : Except StageError Unit :=
  if f.isOpen then .ok () else .error .closed

def close (f : StagedFile) : StagedFile := { f with isOpen := false }

/-- Close the file and move it to its path. The file is closed even if the move fails. -/
def finalize (f : StagedFile) (d : Disk) : StagedFile × Except StageError Disk :=
  (f.close, match d.rename f.temp f.path with
    | .error e => .error (.rename e)
    | .ok d => .ok d)

def cleanup (f : StagedFile) (d : Disk) : StagedFile × Disk := (f.close, d.remove f.temp)

def writeAll (f : StagedFile) : List Bytes → Disk → Except StageError (StagedFile × Disk)
  | [], d => .ok (f, d)
  | piece :: rest, d =>
    match f.write piece d with
    | .error e => .error e
    | .ok (f, d) => writeAll f rest d

end StagedFile

/-- Why publishing failed: at the staged file, or because the content could not be made. -/
inductive PublishError (ε : Type) where
  | stage (e : StageError)
  | content (e : ε)
  deriving DecidableEq, Repr

/-- What a content maker does: the pieces it writes and how it ends. -/
structure Content (ε : Type) where
  pieces : List Bytes
  outcome : Except ε Unit := .ok ()

def StagedFile.complete {ε : Type} (f : StagedFile) (sync : Bool) (c : Content ε) (d : Disk) :
    Except (PublishError ε) Unit × Disk :=
  match f.writeAll c.pieces d with
  | .error e => (.error (.stage e), (f.cleanup d).2)
  | .ok (f, d) =>
    match c.outcome with
    | .error e => (.error (.content e), (f.cleanup d).2)
    | .ok () =>
      match if sync then f.sync else .ok () with
      | .error e => (.error (.stage e), (f.cleanup d).2)
      | .ok () =>
        match f.finalize d with
        | (f, .error e) => (.error (.stage e), (f.cleanup d).2)
        | (_, .ok d) => (.ok (), d)

/-- Write content to a path through a staged file: all of it, or nothing. -/
def publish {ε : Type} (path : String) (sync : Bool) (c : Content ε) (d : Disk) :
    Except (PublishError ε) Unit × Disk :=
  match StagedFile.new path d with
  | .error e => (.error (.stage e), d)
  | .ok (f, d) => f.complete sync c d

def publishBytes (path : String) (sync : Bool) (data : Bytes) (d : Disk) :
    Except StageError Unit × Disk :=
  match @publish Empty path sync { pieces := [data] } d with
  | (.ok (), d) => (.ok (), d)
  | (.error (.stage e), d) => (.error e, d)
  | (.error (.content e), _) => nomatch e

end FlowPack
