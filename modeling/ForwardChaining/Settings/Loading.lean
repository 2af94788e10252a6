import ForwardChaining.Json.Reader
import ForwardChaining.Json.Writer
import ForwardChaining.Libraries
import ForwardChaining.Settings

/-!
# Settings in files

Settings are kept as YAML or as JSON, and the suffix of a path tells which. Where no path is given the
first that exists of six is taken, those in the user's directory before those in the working directory;
where none exists the standard settings hold. A file without any data gives the standard settings, too.
-/

namespace ForwardChaining

open Files (Path)

/-- Why settings cannot be loaded. -/
inductive LoadError where
  /-- The user's directory is unknown. -/
  | homeless
  | file (e : FileError)
  | encoding (e : Text.Utf8Error)
  | json (text : List Char)
  | yaml (message : String)
  | settings (e : SettingsError)

/-- The message for settings that cannot be loaded. Nobody has one for a user whose directory is unknown. -/
def LoadError.message? (libraries : Libraries) : LoadError → Option String
  | homeless => none
  | file e => some e.message
  | encoding e => some e.message
  | json text => some (libraries.jsonError text)
  | yaml message => some message
  | settings (.shape c) => some (libraries.shapeError c)
  | settings (.cap e) => some e.message

/-- Why settings cannot be saved. -/
inductive SaveError where
  | file (e : FileError)
  /-- JSON has no form for what they hold. -/
  | content (c : Content)

namespace Settings

/-- Whether the files at a path are written in YAML. Capitals count. -/
def isYaml (path : Path) : Bool := path.suffix = ".yaml" || path.suffix = ".yml"

/-- What a file's text holds. -/
def contentOf (libraries : Libraries) (path : Path) (text : List Char) : Except LoadError Content :=
  if isYaml path then (libraries.readYaml text).mapError .yaml
  else match Json.read? text with
    | some d => .ok (.datum d)
    | none => .error (.json text)

/-- The settings in a file. -/
def loadFile (libraries : Libraries) (fs : Files) (path : Path) : Except LoadError Settings := do
  let bytes ← (fs.read path.text).mapError .file
  let text ← (Text.decode bytes).mapError .encoding
  let c ← contentOf libraries path (Text.unifyLineEnds text)
  (Settings.ofContent (if c.truthy then c else .datum (.map []))).mapError .settings

/-- The paths where settings are looked for, in order, given the user's directory. -/
def searchPaths (home : Path) : List Path :=
  (["config.yaml", "config.yml", "config.json"].map fun name => (home.child ".chainlog").child name)
    ++ ["chainlog_config.yaml", "chainlog_config.yml", "chainlog_config.json"].map Path.ofString

/-- The first of paths where something is. -/
def firstThere (fs : Files) : List Path → Except FileError (Option Path)
  | [] => .ok none
  | path :: rest =>
    (fs.check path.text).bind fun isThere => if isThere then .ok (some path) else firstThere fs rest

/-- The settings at the first of the paths where something is. -/
def search (libraries : Libraries) (fs : Files) : Except LoadError Settings :=
  match fs.home with
  | none => .error .homeless
  | some home =>
    match firstThere fs (searchPaths home) with
    | .error e => .error (.file e)
    | .ok (some path) => loadFile libraries fs path
    | .ok none => .ok {}

/-- The settings in a file, or the ones that are found where none is named. -/
def load (libraries : Libraries) (fs : Files) (spelling : Option String) : Except LoadError Settings :=
  match spelling with
  | none => search libraries fs
  | some spelling => if spelling = "" then search libraries fs else loadFile libraries fs (Path.ofString spelling)

/-- Settings as the text of a file. -/
def fileText (s : Settings) (libraries : Libraries) (path : Path) : Except SaveError String :=
  if isYaml path then .ok (libraries.writeYaml s.toContent)
  else match s.datum? with
    | some d => .ok (Json.indented d)
    | none => .error (.content s.toContent)

/-- The files with settings saved at a path, whose directories are made. -/
def save (s : Settings) (libraries : Libraries) (fs : Files) (path : Path) : Except SaveError Files := do
  let fs ← (fs.makeDirectories path.parent).mapError .file
  let text ← s.fileText libraries path
  (fs.write path.text (Text.encode text)).mapError .file

end Settings

end ForwardChaining
