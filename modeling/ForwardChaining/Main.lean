import ForwardChaining.CommandLine.Run
import ForwardChaining.Log.Time
import ForwardChaining.Yaml.Library
import Std.Time.DateTime.Timestamp

/-!
# The program

The outer layer: it reads the arguments, takes a picture of the files that the run may look at, makes the
run, prints its output and its diagnostics, and writes back the files that have changed.
-/

namespace ForwardChaining.Main

open CommandLine

/-- The number of the error that reading a directory as a file gives. -/
def directoryErrno : UInt32 := 21

/-- What the disk holds under a spelling. -/
def itemOnDisk (spelling : String) : IO (Option Item) := do
  try
    let bytes ← IO.FS.readBinFile spelling
    return some (.file bytes.toList)
  catch e =>
    match e with
    | .inappropriateType _ code _ => return if code = directoryErrno then some .directory else none
    | _ => return none

/-- The picture with all that lies on the way to a spelling. -/
def withWay (fs : Files) (spelling : String) : IO Files := do
  let path := Files.Path.ofString spelling
  let start := if path.fromRoot then [] else fs.workingDirectory
  let mut fs := fs
  let mut place := start
  for name in path.names do
    place := if name = ".." then place.dropLast else place ++ [name]
    match ← itemOnDisk ("/" ++ Files.Path.joined place) with
    | some item => fs := fs.put place item
    | none => pure ()
  return fs

/-- The devices that a run may write to. -/
def devices : List (Location × Device) :=
  [(["dev", "null"], .sink), (["dev", "stdout"], .output), (["dev", "stderr"], .diagnostics)]

/-- The picture of the files that a run may look at. -/
def picture (options : Options) : IO Files := do
  let here := Files.Path.ofString ((← IO.getEnv "PWD").getD "/")
  let home := (← IO.getEnv "HOME").map Files.Path.ofString
  let mut fs : Files := { workingDirectory := here.names, home }
  for name in (List.range here.names.length).map (fun n => here.names.take (n + 1)) do
    fs := fs.put name .directory
  for path in (home.map Settings.searchPaths).getD [] do
    fs ← withWay fs path.text
  for spelling in options.config.toList ++ options.programs do
    fs ← withWay fs spelling
  match Settings.load Yaml.library fs options.config with
  | .ok { logFile, .. } =>
    match Logging.fileOf logFile with
    | .ok (some path) =>
      for generation in List.range (LogFile.backupCount + 1) do
        fs ← withWay fs (LogFile.generation path.text generation)
    | _ => pure ()
  | .error _ => pure ()
  fs := fs.put ["dev"] .directory
  for (place, device) in devices do
    fs := fs.put place (.device device)
  return fs

/-- Write back the files that differ from the picture. -/
def writeBack (before after : Files) : IO Unit := do
  for (place, item) in before.items do
    let spelling := "/" ++ Files.Path.joined place
    if (after.item? place).isNone then
      match item with
      | .directory => IO.FS.removeDirAll spelling
      | _ => IO.FS.removeFile spelling
  for (place, item) in after.items.reverse do
    let spelling := "/" ++ Files.Path.joined place
    match item, before.item? place with
    | .directory, none => IO.FS.createDirAll spelling
    | .file bytes, none => IO.FS.writeBinFile spelling ⟨bytes.toArray⟩
    | .file bytes, some (.file old) =>
      if bytes ≠ old then IO.FS.writeBinFile spelling ⟨bytes.toArray⟩
    | _, _ => pure ()

/-- How the program is used. -/
def usage : String :=
  "usage: chainlog [-h] [--demo] [--max-iterations MAX_ITERATIONS] [--config CONFIG]\n"
    ++ "                [--log-level LOG_LEVEL] [--json-logs] [--strict]\n"
    ++ "                [PROGRAM ...]\n"

/-- Make a run under options. -/
def runWith (options : Options) : IO UInt32 := do
  let files ← picture options
  let moment := (← Std.Time.Timestamp.now).toNanosecondsSinceUnixEpoch.val.fdiv 1000
  let stamp : Log.Stamp := { plain := Log.plainText moment, iso := Log.isoText moment }
  let outcome := run Yaml.library options files stamp
  writeBack files outcome.files
  for line in outcome.output do
    IO.println line
  for line in outcome.diagnostics do
    IO.eprintln line
  match outcome.ending with
  | .exit code => return code.toUInt32
  | .aborted =>
    IO.eprintln "chainlog: nothing was prepared for what happened"
    return 1

end ForwardChaining.Main

/-- Run the program. -/
def main (arguments : List String) : IO UInt32 := do
  match ForwardChaining.CommandLine.read arguments with
  | .ok .help =>
    IO.print ForwardChaining.Main.usage
    return 0
  | .ok (.run options) => ForwardChaining.Main.runWith options
  | .error e =>
    IO.eprint ForwardChaining.Main.usage
    IO.eprintln ("chainlog: error: " ++ e.message)
    return 2
