import FlowPack.Archive.Unpack
import FlowPack.Command.Help
import FlowPack.Command.Lookup
import FlowPack.Report.Tables
import FlowPack.Settings.File

namespace FlowPack

structure BuildInfo where
  version : String := "dev"
  platform : String := ""
  commit : String := ""
  date : String := ""
  compiler : String := ""
  deriving DecidableEq, Repr

namespace BuildInfo

def toJson (b : BuildInfo) : Json :=
  .obj [("BuildDate", .str b.date), ("GitCommit", .str b.commit), ("GoVersion", .str b.compiler),
    ("Platform", .str b.platform), ("Version", .str b.version)]

def grid (b : BuildInfo) : Report.Grid where
  rows := [[.text "Version", .text b.version], [.text "Platform", .text b.platform],
    [.text "GitCommit", .text b.commit], [.text "BuildDate", .text b.date],
    [.text "GoVersion", .text b.compiler]]
  columns := [⟨.center, .natural⟩, ⟨.left, .natural⟩]

end BuildInfo

namespace Command

inductive Format where
  | table
  | json
  deriving DecidableEq, Repr

def Format.parse? (s : String) : Option Format :=
  match lowered s with
  | "table" => some .table
  | "json" => some .json
  | _ => none

structure Outcome where
  exit : Nat := 0
  output : String := ""
  journal : List Journal.Entry := []
  complaint : String := ""
  disk : Disk

def failureExit : Nat := 255

/-- What all commands share once the flags are read. -/
structure Context where
  build : BuildInfo
  expand : Unpacker
  settings : Settings
  level : Journal.Level
  format : Format

namespace Context

def present (ctx : Context) (j : Json) (grids : List Report.Grid) : String :=
  match ctx.format with
  | .json => j.render Json.indented 0 ++ "\n"
  | .table => String.join (grids.map Report.Grid.render)

def presentFailure (ctx : Context) (message : Text) : String :=
  match ctx.format with
  | .json => (Json.obj [("ERROR", .string message)]).render Json.compact 0 ++ "\n"
  | .table => Report.Grid.render {
      header := ["ERROR"]
      rows := [[.text message.shown]]
      columns := [⟨.center, .center⟩] }

def failure (ctx : Context) (notes : List Journal.Entry) (message : Text) (d : Disk) :
    Outcome where
  exit := failureExit
  output := ctx.presentFailure message
  journal := Journal.visible ctx.level notes
  disk := d

def success (ctx : Context) (notes : List Journal.Entry) (output : String) (d : Disk) :
    Outcome where
  output := output
  journal := Journal.visible ctx.level notes
  disk := d

end Context

/-- The answer to a wrong number of arguments: what is needed, and the help text. -/
def misuse (c : Command) (o : Options) (needed : String) (d : Disk) : Outcome where
  exit := failureExit
  output := needed ++ "\n\n============ see below for right usage ============\n\n" ++ c.helpText o
  disk := d

def runConvert (ctx : Context) (input output : String) (tempos : List String) (d : Disk) :
    Outcome :=
  let converter : Converter := ⟨ctx.expand, ctx.settings.tagSets, ctx.settings.syncs⟩
  let r := converter.convertFile input output tempos d
  match r.result with
  | .error e => ctx.failure r.notes (.ofString ("convert failed: " ++ e.message)) r.disk
  | .ok s => ctx.success r.notes (ctx.present s.toJson [s.grid]) r.disk

def runUnpack (ctx : Context) (o : Options) (archive outdir : String) (d : Disk) : Outcome :=
  let r := Archive.unpack ctx.expand ctx.settings ⟨o.base, .ofString o.variant, o.names⟩
    archive outdir d
  match r.result with
  | .error e => ctx.failure r.notes (.ofString ("unpack failed: " ++ e.message)) r.disk
  | .ok l => ctx.success r.notes (ctx.present l.toJson [l.grid]) r.disk

def runInspect (ctx : Context) (path : String) (d : Disk) : Outcome :=
  match Inspection.ofFile ctx.expand d path with
  | .error e => ctx.failure [] (.ofString "inspect failed: " ++ e.message) d
  | .ok i => ctx.success [] (ctx.present i.toJson i.grids) d

def runShowConfig (ctx : Context) (d : Disk) : Outcome :=
  ctx.success [] (match ctx.format with
    | .json => ctx.settings.toJson.render Json.indented 0 ++ "\n"
    | .table => String.ofList ctx.settings.render) d

def runInitConfig (ctx : Context) (path : String) (d : Disk) : Outcome :=
  match ctx.settings.save path d with
  | (.error e, d) => ctx.failure [] (.ofString "write config failed: " ++ e.message) d
  | (.ok (), d) => ctx.success [] s!"config written to {path}\n" d

def runVersion (ctx : Context) (d : Disk) : Outcome :=
  ctx.success [] (ctx.present ctx.build.toJson [ctx.build.grid]) d

def runHelp (args : List String) (d : Disk) : Outcome :=
  match find args with
  | .ok (c, _) => { output := c.helpText {}, disk := d }
  | .error _ =>
    let quoted := args.map fun s => "`" ++ s ++ "`"
    { complaint := "Unknown help topic [" ++ " ".intercalate quoted ++ "]\n" ++ root.usageText {}
      disk := d }

def perform (ctx : Context) (c : Command) (o : Options) (args : List String) (d : Disk) :
    Outcome :=
  match c, args with
  | .convert, input :: output :: tempos => runConvert ctx input output tempos d
  | .convert, _ => c.misuse o "btks needs an input and an output path" d
  | .unpack, [archive, outdir] => runUnpack ctx o archive outdir d
  | .unpack, _ => c.misuse o "unpack needs an archive and an output directory" d
  | .inspect, [path] => runInspect ctx path d
  | .inspect, _ => c.misuse o "inspect needs exactly one file" d
  | .showConfig, _ => runShowConfig ctx d
  | .initConfig, [path] => runInitConfig ctx path d
  | .initConfig, _ => c.misuse o "config init needs a path" d
  | .version, _ => runVersion ctx d
  | _, _ => { output := c.helpText o, disk := d }

def refuse (message : Text) (d : Disk) : Outcome where
  exit := failureExit
  complaint := s!"{root.name} error: " ++ message.shown ++ "\n"
  disk := d

def loadSettings (env : Environment) (o : Options) (d : Disk) : Except LoadError Settings :=
  if o.config = "" then .ok {} else Settings.load env d o.config

def execute (build : BuildInfo) (expand : Unpacker) (env : Environment) (c : Command)
    (args : List String) (d : Disk) : Outcome :=
  match readArguments c.flags {} args with
  | .error e => refuse (.ofString e.message) d
  | .ok (o, args) =>
    if o.help ∨ ¬ c.runs then { output := c.helpText o, disk := d }
    else if c = .help then runHelp args d
    else
      match Format.parse? o.format with
      | none => refuse (.ofString ("unknown output format " ++ (Text.ofString o.format).quoted)) d
      | some format =>
        match loadSettings env o d with
        | .error e => refuse e.message d
        | .ok settings =>
          let level := if o.debug then .debug else settings.level
          perform ⟨build, expand, settings, level, format⟩ c o args d

def optionsOf (args : List String) : Options :=
  match find args with
  | .error _ => {}
  | .ok (c, args) =>
    match readArguments c.flags {} args with
    | .error _ => {}
    | .ok (o, _) => o

/-- The paths that a run may look at or change. Parts of arguments count as well, since a flag
and its value can be one argument. -/
def pathsOf (args : List String) (s : Settings) : List String :=
  let o := optionsOf args
  let named := args ++ [o.config, o.names, s.namesFile.shown]
  let listed := args.map fun p => Path.inside p Archive.listingName
  let all := (named ++ listed).filter (· ≠ "")
  all ++ all.map Path.tempOf

def run (build : BuildInfo) (expand : Unpacker) (env : Environment) (args : List String)
    (d : Disk) : Outcome :=
  match find args with
  | .error word => refuse (.ofString (unknownMessage word)) d
  | .ok (c, args) => execute build expand env c args d

end Command

end FlowPack
