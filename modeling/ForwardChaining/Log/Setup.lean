import ForwardChaining.Libraries
import ForwardChaining.Log.Layout

/-!
# Logging

Logging has a level, below which records are dropped, and a layout. Records go to the console, and to a
file if one is named; the file's directories are made, and what it holds already is kept. Unification and
matching have a threshold of their own: they are heard below warnings only where everything is.
-/

namespace ForwardChaining

open Files (Path)

/-- How records are logged. -/
structure Logging where
  level : Level
  forPrograms : Bool := false
  file : Option Path := none

/-- Why logging cannot be set up. -/
inductive LoggingError where
  | unknownLevel (got : Content)
  | file (e : FileError)
  /-- The name of the log file has surrogates. -/
  | encoding (got : CodeText)
  /-- The name of the log file is no text. -/
  | fileName (got : Content)

/-- The message for logging that cannot be set up. Nobody has one for a log file whose name is no text. -/
def LoggingError.message? (libraries : Libraries) : LoggingError → Option String
  | unknownLevel c => some ("Unknown log level: " ++ c.shown)
  | file e => some e.message
  | encoding name => some (libraries.nameError name)
  | fileName _ => none

namespace Logging

/-- The level that something names. -/
def levelOf (c : Content) : Except LoggingError Level :=
  match c with
  | .datum (.scalar (.text s)) =>
    match Level.ofName? s with
    | some level => .ok level
    | none => .error (.unknownLevel c)
  | _ => .error (.unknownLevel c)

/-- The path of the log file that something names, if any. -/
def fileOf (c : Content) : Except LoggingError (Option Path) :=
  if !c.truthy then .ok none
  else match c with
    | .datum (.scalar (.text s)) =>
      match Text.string? s with
      | some s => .ok (some (Path.ofString s))
      | none => .error (.encoding s)
    | _ => .error (.fileName c)

/-- The files with a log file opened. -/
def openFile (fs : Files) (path : Path) : Except FileError Files :=
  (fs.makeDirectories path.parent).bind fun fs => fs.append (fs.fullText path) []

/-- Set up logging. -/
def setUp (fs : Files) (level file : Content) (forPrograms : Bool) : Except LoggingError (Logging × Files) := do
  let level ← levelOf level
  match ← fileOf file with
  | none => return ({ level, forPrograms }, fs)
  | some path =>
    let fs ← (openFile fs path).mapError .file
    return ({ level, forPrograms, file := some path }, fs)

/-- The loggers with a threshold of their own. -/
def detailLoggers : List String := ["chainlog.unification", "chainlog.matching"]

/-- The threshold of the loggers for details; zero if they have none. -/
def detailLevel (l : Logging) : Level := if l.level > .debug then .warning else .notSet

/-- Whether a logger is one for details, or below one. -/
def isDetail (logger : CodeText) : Bool :=
  detailLoggers.any fun name => logger = Text.codes name || (Text.codes (name ++ ".")).isPrefixOf logger

/-- Whether a record is logged. -/
def admits (l : Logging) (r : Record) : Bool :=
  let own := if isDetail r.logger && l.detailLevel ≠ .notSet then l.detailLevel else l.level
  own ≤ r.level && l.level ≤ r.level

/-- The line of a record. -/
def line (l : Logging) (stamp : Log.Stamp) (r : Record) : CodeText :=
  if l.forPrograms then Log.programLine stamp (.ofLogger r.logger) none r else Log.readerLine stamp r

end Logging

/-- Where records arrive: the lines on the console, those on the output, and the files. -/
structure Outlet where
  console : List String := []
  output : List String := []
  files : Files

namespace Outlet

/-- A line to the console. -/
def print (out : Outlet) (line : String) : Outlet := { out with console := out.console ++ [line] }

/-- A line to the log file. What a device takes may come to light after all. -/
def write (out : Outlet) (libraries : Libraries) (name : String) (line : CodeText) : Outlet :=
  match LogFile.write out.files name line with
  | .error (e, files) => { out with files }.print (libraries.logError e)
  | .ok files =>
    let out := { out with files }
    match files.device? name with
    | some .output => { out with output := out.output ++ [Text.printed line] }
    | some .diagnostics => out.print (Text.printed line)
    | _ => out

end Outlet

/-- Log a record, if it is to be logged. -/
def Logging.log (l : Logging) (libraries : Libraries) (stamp : Log.Stamp) (out : Outlet) (r : Record) : Outlet :=
  if !l.admits r then out
  else
    let line := l.line stamp r
    let out := out.print (Text.printed line)
    match l.file with
    | none => out
    | some path => out.write libraries (out.files.fullText path) line

/-- Log records in turn. -/
def Logging.logAll (l : Logging) (libraries : Libraries) (stamp : Log.Stamp) (out : Outlet) (rs : List Record) :
    Outlet :=
  rs.foldl (l.log libraries stamp) out

end ForwardChaining
