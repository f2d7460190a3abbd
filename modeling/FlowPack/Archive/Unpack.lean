import FlowPack.Archive.Listing
import FlowPack.Disk.Input
import FlowPack.Disk.StagedFile
import FlowPack.Settings.Basic

namespace FlowPack.Archive

inductive LabelsError where
  | unreadable (path : String) (e : FileError)
  | invalid (path : String) (e : Labels.ParseError)
  deriving DecidableEq, Repr

def LabelsError.message : LabelsError → String
  | unreadable path e => s!"failed to read name table {path}: {e.message}"
  | invalid path e => s!"{path}: {e.message}"

def Labels.load (d : Disk) (path : String) : Except LabelsError Labels :=
  match d.content path with
  | .error e => .error (.unreadable path e)
  | .ok data =>
    match Labels.parse (.ofBytes data) with
    | .error e => .error (.invalid path e)
    | .ok labels => .ok labels

def Labels.load? (d : Disk) (path : String) : Except LabelsError (Option Labels) :=
  if path = "" then .ok none else (Labels.load d path).map some

/-- What the caller asks for; the settings decide what is left open. -/
structure UnpackOptions where
  base : Option UInt32 := none
  variant : Text := []
  namesFile : String := ""
  deriving DecidableEq, Repr

namespace UnpackOptions

/-- The base: the one given, else that of the variant given, else that of the settings. -/
def chooseBase (o : UnpackOptions) (s : Settings) : Except BaseError UInt32 :=
  match o.base with
  | some w => .ok w
  | none => if o.variant = [] then s.base else variantBase o.variant

def chooseNames (o : UnpackOptions) (s : Settings) : String :=
  if o.namesFile = "" then s.namesFile.shown else o.namesFile

end UnpackOptions

inductive UnpackError where
  | base (e : BaseError)
  | labels (e : LabelsError)
  | input (e : InputError)
  | scan (path : String) (e : ScanError)
  | directory (e : FileError)
  | output (path : String) (e : StageError)
  deriving DecidableEq, Repr

def UnpackError.message : UnpackError → String
  | base e => e.message
  | labels e => e.message
  | input e => e.message
  | scan path e => s!"failed to scan {path}: {e.message}"
  | directory e => s!"failed to create directory: {e.message}"
  | output path e => s!"failed to write {path}: {e.message}"

def listingName : String := "candidates.json"

structure Unpacking where
  notes : List Journal.Entry
  result : Except UnpackError Listing
  disk : Disk

def foundNote (l : Listing) : Journal.Entry :=
  .plain .info (s!"Found {l.games.length} game/gate and {l.tempos.length} tempo candidates " ++
    s!"above {Numeral.address l.base} in {l.archive}")

/-- Everything that is read before anything is written: the base, the labels and the archive. -/
def gather (expand : Unpacker) (s : Settings) (o : UnpackOptions) (archive : String) (d : Disk) :
    Except UnpackError (UInt32 × Option Labels × Source) :=
  match o.chooseBase s with
  | .error e => .error (.base e)
  | .ok base =>
    match Labels.load? d (o.chooseNames s) with
    | .error e => .error (.labels e)
    | .ok labels =>
      match openInput expand d archive with
      | .error e => .error (.input e)
      | .ok input => .ok (base, labels, input.source)

def Listing.publish (l : Listing) (sync : Bool) (d : Disk) : Except UnpackError Unit × Disk :=
  match d.makeDirs l.outdir.toList with
  | .error (e, d) => (.error (.directory e), d)
  | .ok d =>
    let path := Path.inside l.outdir listingName
    match publishBytes path sync l.document d with
    | (.error e, d) => (.error (.output path e), d)
    | (.ok (), d) => (.ok (), d)

/-- Scan the archive at a path and list its candidates in a directory. -/
def unpack (expand : Unpacker) (s : Settings) (o : UnpackOptions) (archive outdir : String)
    (d : Disk) : Unpacking :=
  match gather expand s o archive d with
  | .error e => ⟨[], .error e, d⟩
  | .ok (base, labels, source) =>
    let found := scan .standard source base
    match found.result with
    | .error e => ⟨found.notes, .error (.scan archive e), d⟩
    | .ok report =>
      let listing := Listing.ofReport archive outdir labels report
      match listing.publish s.syncs d with
      | (.error e, d) => ⟨found.notes, .error e, d⟩
      | (.ok (), d) => ⟨found.notes ++ [foundNote listing], .ok listing, d⟩

end FlowPack.Archive
