import FlowPack.Disk.StagedFile
import FlowPack.Settings.Document
import FlowPack.Settings.Environment
import FlowPack.Settings.Printer

namespace FlowPack

inductive LoadError where
  | notFound (path : String)
  | unreadable (e : FileError)
  | document (e : Settings.DocumentError)
  | invalid (e : InvalidSettings)
  deriving DecidableEq, Repr

inductive SaveError where
  | invalid (e : InvalidSettings)
  | stage (e : StageError)
  deriving DecidableEq, Repr

def invalidSettings : Text := .ofString "invalid configuration: "

def InvalidSettings.message (e : InvalidSettings) : Text := invalidSettings ++ .ofString e.reason

def Settings.DocumentError.message : Settings.DocumentError → Text
  | abort .unreadable => invalidSettings ++ .ofString "yaml"
  | abort (.syncMode w) => invalidSettings ++ .ofString ("unknown sync mode " ++ w.quoted)
  | problems ps =>
    invalidSettings ++ .ofString "yaml: unmarshal errors:" ++
      ps.flatMap fun p => Text.ofString "\n  " ++ p.text

def LoadError.message : LoadError → Text
  | notFound path => .ofString s!"config file not found: {path}"
  | unreadable e => .ofString s!"failed to read config: {e.message}"
  | document e => e.message
  | invalid e => e.message

def SaveError.message : SaveError → Text
  | invalid e => e.message
  | stage e => .ofString ("failed to write config: " ++ e.message)

namespace Settings

def ofBytes (env : Environment) (data : Bytes) : Except LoadError Settings :=
  match parse (env.expand data) with
  | .error e => .error (.document e)
  | .ok s =>
    match s.check with
    | .error e => .error (.invalid e)
    | .ok () => .ok s

def load (env : Environment) (d : Disk) (path : String) : Except LoadError Settings :=
  match d.content path with
  | .error e => if e.cause = .notFound then .error (.notFound path) else .error (.unreadable e)
  | .ok data => ofBytes env data

def save (s : Settings) (path : String) (d : Disk) : Except SaveError Unit × Disk :=
  match s.check with
  | .error e => (.error (.invalid e), d)
  | .ok () =>
    match publishBytes path s.syncs s.document d with
    | (.ok (), d) => (.ok (), d)
    | (.error e, d) => (.error (.stage e), d)

end Settings

end FlowPack
