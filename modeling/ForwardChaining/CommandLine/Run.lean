import ForwardChaining.CommandLine.Options
import ForwardChaining.Log.Setup
import ForwardChaining.Settings.Session

/-!
# A run of the command line

A run loads settings, sets up logging, makes an engine, loads programs into it, saturates the facts and
lists them. Up to the saturation any failure ends the run with one message and a failing exit code, and
nothing is listed. A run that was capped ends with a warning, or with an exit code of its own where the
caller is strict.

The run is a function of the files that it can see. Records are written as they come, so that a log file
that is also a program is read as it stands by then.
-/

namespace ForwardChaining.CommandLine

/-- How a run ended. -/
inductive Ending where
  | exit (code : Nat)
  /-- Something happened that nothing was prepared for. -/
  | aborted
deriving DecidableEq

/-- What a run leaves behind: the lines of its output and of its diagnostics, and the files. -/
structure Outcome where
  ending : Ending
  output : List String := []
  diagnostics : List String := []
  files : Files

/-- All went well. -/
def exitOk : Nat := 0

/-- Something could not be loaded or set up. -/
def exitInput : Nat := 1

/-- The run was capped. -/
def exitCapped : Nat := 2

/-- A run that fails with a message. -/
def failed (out : Outlet) (message : String) : Outcome :=
  { ending := .exit exitInput, output := out.output, diagnostics := out.console ++ [message], files := out.files }

/-- A run that fails, with a message if there is one. -/
def stopped (out : Outlet) (beginning : String) : Option String → Outcome
  | some message => failed out (beginning ++ message)
  | none => { ending := .aborted, output := out.output, diagnostics := out.console, files := out.files }

/-- Why a program cannot be loaded. -/
inductive ProgramFault where
  | file (e : FileError)
  | encoding (e : Text.Utf8Error)
  | content (e : Notation.ProgramError)

/-- The message for a program that cannot be loaded. -/
def ProgramFault.message : ProgramFault → String
  | file e => e.message
  | encoding e => e.message
  | content e => e.message

/-- The text of a program in a file. -/
def programText (files : Files) (name : String) : Except ProgramFault String := do
  let bytes ← (files.read name).mapError .file
  let text ← (Text.decode bytes).mapError .encoding
  return String.ofList (Text.unifyLineEnds text)

/-- The engine with the program of a file added, and what that is worth recording. -/
def loadProgram (files : Files) (e : Engine) (name : String) : Except ProgramFault (Engine × List Event) := do
  let text ← programText files name
  let (e, events) ← (e.addProgram text).mapError .content
  return (e, events ++ [.programLoaded name])

/-- The level that records must reach: the one the options name, if they name one. -/
def levelFor (options : Options) (settings : Settings) : Content :=
  match options.logLevel with
  | some name => if name = "" then settings.logLevel else .text name
  | none => settings.logLevel

/-- The cap: the one in the options, or the one of the settings. -/
def capFor (options : Options) (settings : Settings) : Except CapError Cap :=
  match options.maxIterations with
  | some n => Cap.ofInt n
  | none => .ok settings.cap

/-- The lines that list the outcome of an inference. -/
def report (i : Inference) : List String :=
  ("--- Final Inferred Facts (" ++ toString i.facts.length ++ ") ---")
    :: (sorted (i.facts.map Atom.display)).map (fun line => "- " ++ line)
    ++ ["Status: " ++ i.status.word ++ " after " ++ toString i.iterations ++ " iteration(s), "
      ++ toString i.derived.length ++ " derived"]

/-- The exit code behind an inference. -/
def exitCode (options : Options) (i : Inference) : Nat :=
  if options.strict && !i.reachedFixpoint then exitCapped else exitOk

/-- The remark about an inference that was capped. -/
def remarks (options : Options) (i : Inference) : List String :=
  match i.unfinished? with
  | none => []
  | some u =>
    if options.strict then ["Error: " ++ u.message] else ["Warning: iteration cap reached before a fixpoint"]

/-- A run under options, from the files it can see; records are stamped with a moment. -/
def run (libraries : Libraries) (options : Options) (files : Files) (stamp : Log.Stamp) : Outcome :=
  match Settings.load libraries files options.config with
  | .error e => stopped { files } "Error loading config: " (e.message? libraries)
  | .ok settings =>
    let forPrograms := options.jsonLogs || settings.structuredLogging.truthy
    match Logging.setUp files (levelFor options settings) settings.logFile forPrograms with
    | .error e => stopped { files } "Error configuring logging: " (e.message? libraries)
    | .ok (logging, files) =>
      match capFor options settings with
      | .error e => failed { files } ("Error: " ++ e.message)
      | .ok cap =>
        let engine : Engine := if options.demo then .philosophers cap else { cap }
        match loadAll logging engine { files } options.programs with
        | .error (fault, out) => failed out ("Error: " ++ fault.message)
        | .ok (engine, out) =>
          let i := engine.infer
          let out := logging.logAll libraries stamp out ((i.events (.zero false)).map Event.record)
          { ending := .exit (exitCode options i), output := out.output ++ report i
            diagnostics := out.console ++ remarks options i, files := out.files }
where
  /-- The engine with the programs of files added in turn, or the first fault, and where the records went. -/
  loadAll (logging : Logging) (e : Engine) (out : Outlet) :
      List String → Except (ProgramFault × Outlet) (Engine × Outlet)
    | [] => .ok (e, out)
    | name :: rest =>
      match loadProgram out.files e name with
      | .error fault => .error (fault, out)
      | .ok (e, events) =>
        loadAll logging e (logging.logAll libraries stamp out (events.map Event.record)) rest

end ForwardChaining.CommandLine
