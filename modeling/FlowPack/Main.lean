import FlowPack.Command.Run
import FlowPack.Journal.Stamp
import Std.Time.DateTime.Timestamp

namespace FlowPack.Program

def placeOf (l : Location) : String := "/".intercalate l

/-- Add what is at a location to a disk. -/
def snapshot (d : Disk) (l : Location) : IO Disk := do
  if Disk.isGiven l then return d
  let place := (← IO.currentDir) / placeOf l
  if ← place.isDir then return d.set l .dir
  if ← place.pathExists then
    return d.set l (.file (← IO.FS.readBinFile place).data.toList)
  return d

def snapshotAll (d : Disk) (paths : List String) : IO Disk :=
  (paths.flatMap Disk.steps).foldlM snapshot d

/-- The values of the variables that a text refers to. -/
def environmentFor (data : Bytes) : IO Environment := do
  let look (name : Bytes) : IO (Option (Bytes × Bytes)) := do
    let value ← IO.getEnv (Text.ofBytes name).shown
    return value.map fun v => (name, utf8 v)
  (Environment.names data).filterMapM look

/-- Bring the file system from one disk to another. New content is moved into place whole. -/
def store (before after : Disk) : IO Unit := do
  let fresh := after.entries.filter fun (l, n) => before.get? l ≠ some n
  for (l, n) in fresh.mergeSort fun a b => a.1.length ≤ b.1.length do
    match n with
    | .dir => IO.FS.createDir (placeOf l)
    | .file data =>
      let temp := Path.tempOf (placeOf l)
      IO.FS.writeBinFile temp ⟨data.toArray⟩
      IO.FS.rename temp (placeOf l)
  for (l, _) in before.entries do
    if after.get? l = none then IO.FS.removeFile (placeOf l)

def printJournal (entries : List Journal.Entry) : IO Unit := do
  for e in entries do
    let now ← Std.Time.Timestamp.now
    let time := Journal.stamp now.toMillisecondsSinceUnixEpoch.val.toNat
    IO.eprintln s!"[{time}] {e.render}"

end FlowPack.Program

open FlowPack FlowPack.Program in
def main (args : List String) : IO UInt32 := do
  let d ← snapshotAll {} (Command.pathsOf args {})
  let o := Command.optionsOf args
  let env ← environmentFor ((d.content o.config).toOption.getD [])
  let settings := (Command.loadSettings env o d).toOption.getD {}
  let d ← snapshotAll d (Command.pathsOf args settings)
  let r := Command.run {} unpackFile env args d
  store d r.disk
  IO.print r.output
  printJournal r.journal
  IO.eprint r.complaint
  return r.exit.toUInt32
