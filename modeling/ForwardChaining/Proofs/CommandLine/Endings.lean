import ForwardChaining.CommandLine.Run
import ForwardChaining.Proofs.Datum
import ForwardChaining.Proofs.Logging
import ForwardChaining.Proofs.Settings.Given

/-!
# How a run ends

Before the facts are saturated four things can go wrong: the settings, the logging, the cap and each of the
programs in turn (`Fails`).  A run that fails says so in one message and ends with the exit code for input; it
lists nothing.  Every other run prepares an engine (`Prepares`) and ends with one of the other two exit codes.

Two failures are not caught: settings that name a log file by something that is no text (`Misnames`), and settings
that are looked for in the directory of a user who has none (`Homeless`), abort the run.  And a log file that is the
output itself shows there what was logged before a failure (`Spills`).  `contained_iff` says that nothing else goes
wrong.

* `setUp_eq_fileName_iff`: when logging is refused for the name of its file.
* `loadProgram_eq_error_iff`: what can be wrong with a program, which is a matter of its file.
* `loads_or`: programs are loaded one after the other, each from the files as they stand by then, up to the first
  that cannot be.
* `fails_or_prepares`: every run fails or prepares an engine.
* `run_of_fails`, `run_of_prepares`: what the run comes to in either case.
-/

namespace ForwardChaining.CommandLine

variable {libraries : Libraries} {options : Options} {files : Files} {stamp : Log.Stamp} {settings : Settings}
  {logging : Logging} {e e' : Engine} {out out' : Outlet} {name : String} {names : List String} {fault : ProgramFault}

/-! ### The log file -/

theorem levelOf_ne_fileName (level c : Content) : Logging.levelOf level ≠ .error (.fileName c) := by
  unfold Logging.levelOf
  split
  · split
    · exact nofun
    · exact nofun
  · exact nofun

theorem fileOf_cases (file : Content) :
    (file.truthy = false ∧ Logging.fileOf file = .ok none) ∨
      (∃ s, file = .text s ∧
        ((∃ path, Logging.fileOf file = .ok (some path)) ∨ Logging.fileOf file = .error (.encoding s))) ∨
        (file.truthy = true ∧ ∀ s, file ≠ .text s) ∧ Logging.fileOf file = .error (.fileName file) := by
  unfold Logging.fileOf
  by_cases htruthy : file.truthy = true
  · rw [htruthy, Bool.not_true, if_neg (by decide)]
    refine .inr ?_
    split
    next s =>
      refine .inl ⟨s, rfl, ?_⟩
      cases Text.string? s with
      | some name => exact .inl ⟨_, rfl⟩
      | none => exact .inr rfl
    next hnot => exact .inr ⟨⟨rfl, fun s => hnot s⟩, rfl⟩
  · rw [Bool.not_eq_true] at htruthy
    rw [htruthy, Bool.not_false, if_pos rfl]
    exact .inl ⟨rfl, rfl⟩

/-- **A log file is refused for its name** if there is to be one, its name is no text, and the level is known. -/
theorem setUp_eq_fileName_iff {level file : Content} {forPrograms : Bool} :
    (∃ c, Logging.setUp files level file forPrograms = .error (.fileName c)) ↔
      (∃ l, Logging.levelOf level = .ok l) ∧ file.truthy = true ∧ ∀ s, file ≠ .text s := by
  unfold Logging.setUp
  cases hlevel : Logging.levelOf level with
  | error error =>
    constructor
    · rintro ⟨c, hc⟩
      cases hc
      exact absurd hlevel (levelOf_ne_fileName level c)
    · rintro ⟨⟨l, hl⟩, _⟩
      cases hl
  | ok l =>
    rcases fileOf_cases file with ⟨hfalse, hfile⟩ | ⟨s, rfl, ⟨path, hfile⟩ | hfile⟩ | ⟨hname, hfile⟩
    · rw [hfile, hfalse]
      constructor
      · rintro ⟨c, hc⟩
        cases hc
      · rintro ⟨_, htrue, _⟩
        cases htrue
    · rw [hfile]
      refine iff_of_false ?_ fun h => h.2.2 s rfl
      rintro ⟨c, hc⟩
      change (((Logging.openFile files path).mapError _).bind _) = _ at hc
      cases hopen : Logging.openFile files path with
      | error error =>
        rw [hopen] at hc
        cases hc
      | ok files' =>
        rw [hopen] at hc
        cases hc
    · rw [hfile]
      refine iff_of_false ?_ fun h => h.2.2 s rfl
      rintro ⟨c, hc⟩
      cases hc
    · rw [hfile]
      exact ⟨fun _ => ⟨⟨l, rfl⟩, hname⟩, fun _ => ⟨file, rfl⟩⟩

/-! ### Loading programs -/

/-- What can be wrong with the program in a file: it cannot be read, its bytes are no text, or the text is no
program. -/
inductive Spoils (files : Files) (name : String) : ProgramFault → Prop
  | unread {error : FileError} (hread : files.read name = .error error) : Spoils files name (.file error)
  | undecoded {bytes : List UInt8} {error : Text.Utf8Error} (hread : files.read name = .ok bytes)
      (hdecode : Text.decode bytes = .error error) : Spoils files name (.encoding error)
  | malformed {bytes : List UInt8} {text : List Char} {error : Notation.ProgramError}
      (hread : files.read name = .ok bytes) (hdecode : Text.decode bytes = .ok text)
      (hparse : Notation.parseProgram (String.ofList (Text.unifyLineEnds text)) = .error error) :
      Spoils files name (.content error)

theorem loadProgram_of_read {bytes : List UInt8} (e : Engine) (h : files.read name = .ok bytes) :
    loadProgram files e name =
      match Text.decode bytes with
      | .error error => .error (.encoding error)
      | .ok text =>
        match Notation.parseProgram (String.ofList (Text.unifyLineEnds text)) with
        | .error error => .error (.content error)
        | .ok p => .ok ((e.addStatements p).1, (e.addStatements p).2 ++ [.programLoaded name]) := by
  unfold loadProgram programText
  rw [h]
  dsimp only [Except.mapError, bind, Except.bind]
  cases Text.decode bytes with
  | error error => rfl
  | ok text =>
    dsimp only [pure, Except.pure, Engine.addProgram]
    cases Notation.parseProgram (String.ofList (Text.unifyLineEnds text)) with
    | error error => rfl
    | ok p => rfl

/-- **Whether a program can be loaded is a matter of its file**, and not of the engine. -/
theorem loadProgram_eq_error_iff : loadProgram files e name = .error fault ↔ Spoils files name fault := by
  constructor
  · intro h
    cases hread : files.read name with
    | error error =>
      rw [loadProgram, programText, hread] at h
      cases h
      exact .unread hread
    | ok bytes =>
      rw [loadProgram_of_read e hread] at h
      cases hdecode : Text.decode bytes with
      | error error =>
        rw [hdecode] at h
        cases h
        exact .undecoded hread hdecode
      | ok text =>
        rw [hdecode] at h
        dsimp only at h
        cases hparse : Notation.parseProgram (String.ofList (Text.unifyLineEnds text)) with
        | error error =>
          rw [hparse] at h
          cases h
          exact .malformed hread hdecode hparse
        | ok p =>
          rw [hparse] at h
          cases h
  · intro h
    cases h with
    | unread hread =>
      rw [loadProgram, programText, hread]
      rfl
    | undecoded hread hdecode => rw [loadProgram_of_read e hread, hdecode]
    | malformed hread hdecode hparse =>
      rw [loadProgram_of_read e hread, hdecode]
      dsimp only
      rw [hparse]

inductive Loads (libraries : Libraries) (logging : Logging) (stamp : Log.Stamp) :
    Engine → Outlet → List String → Engine → Outlet → Prop
  | nil (e : Engine) (out : Outlet) : Loads libraries logging stamp e out [] e out
  | cons {e e' e'' : Engine} {out out' : Outlet} {name : String} {names : List String} {events : List Event}
      (hname : loadProgram out.files e name = .ok (e', events))
      (hrest : Loads libraries logging stamp e' (logging.logAll libraries stamp out (events.map Event.record)) names e''
        out') :
      Loads libraries logging stamp e out (name :: names) e'' out'

theorem loadAll_of_loads (h : Loads libraries logging stamp e out names e' out') (rest : List String) :
    run.loadAll libraries stamp logging e out (names ++ rest) = run.loadAll libraries stamp logging e' out' rest := by
  induction h with
  | nil e out => rfl
  | cons hname _ ih =>
    rw [List.cons_append, run.loadAll, hname]
    exact ih

/-- **Loading programs leaves all files alone but the generations of the log file.** -/
theorem Loads.kept (h : Loads libraries logging stamp e out names e' out') (hout : logging.Kept files out) :
    logging.Kept files out' := by
  induction h with
  | nil e out => exact hout
  | cons hname _ ih => exact ih (hout.logAll _)

/-- **Programs are loaded up to the first that cannot be, or all of them.** -/
theorem loads_or (libraries : Libraries) (logging : Logging) (stamp : Log.Stamp) (e : Engine) (out : Outlet)
    (names : List String) :
    (∃ e' out', Loads libraries logging stamp e out names e' out') ∨
      ∃ before name after e' out' fault, names = before ++ name :: after ∧
        Loads libraries logging stamp e out before e' out' ∧ Spoils out'.files name fault := by
  induction names generalizing e out with
  | nil => exact .inl ⟨e, out, .nil e out⟩
  | cons name names ih =>
    cases hname : loadProgram out.files e name with
    | error fault => exact .inr ⟨[], name, names, e, out, fault, rfl, .nil e out, loadProgram_eq_error_iff.mp hname⟩
    | ok result =>
      obtain ⟨e', events⟩ := result
      rcases ih e' (logging.logAll libraries stamp out (events.map Event.record)) with
        ⟨e'', out', hrest⟩ | ⟨before, last, after, e'', out', fault, rfl, hbefore, hlast⟩
      · exact .inl ⟨e'', out', .cons hname hrest⟩
      · exact .inr ⟨name :: before, last, after, e'', out', fault, rfl, .cons hname hbefore, hlast⟩

/-! ### What can go wrong -/

/-- What can go wrong before the facts are saturated. -/
inductive Failure where
  | settings (e : LoadError)
  | logging (e : LoggingError)
  | cap (e : CapError)
  | program (e : ProgramFault)

def Failure.beginning : Failure → String
  | .settings _ => "Error loading config: "
  | .logging _ => "Error configuring logging: "
  | .cap _ | .program _ => "Error: "

/-- What a message says about a failure, unless it is one that nothing was prepared for. -/
def Failure.details? (libraries : Libraries) : Failure → Option String
  | .settings e => e.message? libraries
  | .logging e => e.message? libraries
  | .cap e => some e.message
  | .program e => some e.message

def forPrograms (options : Options) (settings : Settings) : Bool :=
  options.jsonLogs || settings.structuredLogging.truthy

def setUpLogging (options : Options) (settings : Settings) (files : Files) : Except LoggingError (Logging × Files) :=
  Logging.setUp files (levelFor options settings) settings.logFile (forPrograms options settings)

def start (options : Options) (cap : Cap) : Engine := if options.demo then .philosophers cap else { cap }

/-- The first thing that goes wrong, and where the records have gone by then. -/
inductive Fails (libraries : Libraries) (options : Options) (files : Files) (stamp : Log.Stamp) :
    Failure → Outlet → Prop
  | settings {e : LoadError} (hsettings : Settings.load libraries files options.config = .error e) :
      Fails libraries options files stamp (.settings e) { files }
  | logging {settings : Settings} {e : LoggingError}
      (hsettings : Settings.load libraries files options.config = .ok settings)
      (hlogging : setUpLogging options settings files = .error e) :
      Fails libraries options files stamp (.logging e) { files }
  | cap {settings : Settings} {logging : Logging} {files' : Files} {e : CapError}
      (hsettings : Settings.load libraries files options.config = .ok settings)
      (hlogging : setUpLogging options settings files = .ok (logging, files'))
      (hcap : capFor options settings = .error e) : Fails libraries options files stamp (.cap e) { files := files' }
  | program {settings : Settings} {logging : Logging} {files' : Files} {cap : Cap} {before after : List String}
      {name : String} {e : Engine} {out : Outlet} {fault : ProgramFault}
      (hsettings : Settings.load libraries files options.config = .ok settings)
      (hlogging : setUpLogging options settings files = .ok (logging, files'))
      (hcap : capFor options settings = .ok cap) (hprograms : options.programs = before ++ name :: after)
      (hbefore : Loads libraries logging stamp (start options cap) { files := files' } before e out)
      (hname : Spoils out.files name fault) : Fails libraries options files stamp (.program fault) out

inductive Prepares (libraries : Libraries) (options : Options) (files : Files) (stamp : Log.Stamp) :
    Logging → Engine → Outlet → Prop
  | intro {settings : Settings} {logging : Logging} {files' : Files} {cap : Cap} {e : Engine} {out : Outlet}
      (hsettings : Settings.load libraries files options.config = .ok settings)
      (hlogging : setUpLogging options settings files = .ok (logging, files'))
      (hcap : capFor options settings = .ok cap)
      (hprograms : Loads libraries logging stamp (start options cap) { files := files' } options.programs e out) :
      Prepares libraries options files stamp logging e out

/-- **Every run fails or prepares an engine.** -/
theorem fails_or_prepares (libraries : Libraries) (options : Options) (files : Files) (stamp : Log.Stamp) :
    (∃ failure out, Fails libraries options files stamp failure out) ∨
      ∃ logging e out, Prepares libraries options files stamp logging e out := by
  cases hsettings : Settings.load libraries files options.config with
  | error error => exact .inl ⟨_, _, .settings hsettings⟩
  | ok settings =>
    cases hlogging : setUpLogging options settings files with
    | error error => exact .inl ⟨_, _, .logging hsettings hlogging⟩
    | ok result =>
      obtain ⟨logging, files'⟩ := result
      cases hcap : capFor options settings with
      | error error => exact .inl ⟨_, _, .cap hsettings hlogging hcap⟩
      | ok cap =>
        rcases loads_or libraries logging stamp (start options cap) { files := files' } options.programs with
          ⟨e, out, hprograms⟩ | ⟨before, name, after, e, out, fault, hprograms, hbefore, hname⟩
        · exact .inr ⟨_, _, _, .intro hsettings hlogging hcap hprograms⟩
        · exact .inl ⟨_, _, .program hsettings hlogging hcap hprograms hbefore hname⟩

/-! ### What a run comes to -/

theorem run_of_load_eq_ok (h : Settings.load libraries files options.config = .ok settings) :
    run libraries options files stamp =
      match setUpLogging options settings files with
      | .error e => stopped { files } "Error configuring logging: " (e.message? libraries)
      | .ok (logging, files) =>
        match capFor options settings with
        | .error e => failed { files } ("Error: " ++ e.message)
        | .ok cap =>
          match run.loadAll libraries stamp logging (start options cap) { files } options.programs with
          | .error (fault, out) => failed out ("Error: " ++ fault.message)
          | .ok (engine, out) =>
            let out := logging.logAll libraries stamp out ((engine.infer.events (.zero false)).map Event.record)
            { ending := .exit (exitCode options engine.infer), output := out.output ++ report engine.infer
              diagnostics := out.console ++ remarks options engine.infer, files := out.files } := by
  rw [run, h]
  rfl

/-- **A run that fails stops**, with a message if there is one. -/
theorem run_of_fails {failure : Failure} (h : Fails libraries options files stamp failure out) :
    run libraries options files stamp = stopped out failure.beginning (failure.details? libraries) := by
  cases h with
  | settings hsettings =>
    rw [run, hsettings]
    rfl
  | logging hsettings hlogging =>
    rw [run_of_load_eq_ok hsettings, hlogging]
    rfl
  | cap hsettings hlogging hcap =>
    rw [run_of_load_eq_ok hsettings, hlogging]
    dsimp only
    rw [hcap]
    rfl
  | program hsettings hlogging hcap hprograms hbefore hname =>
    rw [run_of_load_eq_ok hsettings, hlogging]
    dsimp only
    rw [hcap]
    dsimp only
    rw [hprograms, loadAll_of_loads hbefore, run.loadAll, loadProgram_eq_error_iff.mpr hname]
    rfl

/-- **A run that prepares an engine lists what the engine infers**, behind what it has logged to the output. -/
theorem run_of_prepares (h : Prepares libraries options files stamp logging e out) :
    (run libraries options files stamp).ending = .exit (exitCode options e.infer) ∧
      (run libraries options files stamp).output =
        (logging.logAll libraries stamp out ((e.infer.events (.zero false)).map Event.record)).output
          ++ report e.infer := by
  cases h with
  | intro hsettings hlogging hcap hprograms =>
    have hall := loadAll_of_loads hprograms []
    rw [List.append_nil] at hall
    rw [run_of_load_eq_ok hsettings, hlogging]
    dsimp only
    rw [hcap]
    dsimp only
    rw [hall]
    exact ⟨rfl, rfl⟩

/-! ### What is not caught -/

/-- Settings that can be loaded name a log file by something that is no text, and a level that is known. -/
def Misnames (libraries : Libraries) (options : Options) (files : Files) : Prop :=
  ∃ settings, Settings.load libraries files options.config = .ok settings ∧
    (∃ level, Logging.levelOf (levelFor options settings) = .ok level) ∧
      settings.logFile.truthy = true ∧ ∀ s, settings.logFile ≠ .text s

def Homeless (options : Options) (files : Files) : Prop := options.config.getD "" = "" ∧ files.home = none

/-- Something is logged to the output before the run fails. -/
def Spills (libraries : Libraries) (options : Options) (files : Files) (stamp : Log.Stamp) : Prop :=
  ∃ failure out, Fails libraries options files stamp failure out ∧ out.output ≠ []

theorem load_eq_homeless_iff :
    Settings.load libraries files options.config = .error .homeless ↔ Homeless options files := by
  have hsearch : Settings.search libraries files = .error .homeless ↔ files.home = none := by
    unfold Settings.search
    cases files.home with
    | none => exact iff_of_true rfl rfl
    | some home =>
      refine iff_of_false ?_ nofun
      dsimp only
      split
      · exact nofun
      · exact Settings.loadFile_ne_homeless _ _ _
      · exact nofun
  unfold Settings.load Homeless
  cases options.config with
  | none => simpa using hsearch
  | some spelling =>
    by_cases hempty : spelling = ""
    · simpa [hempty] using hsearch
    · simpa [hempty] using Settings.loadFile_ne_homeless _ _ _

/-- There is nothing to be said about a failure that is not caught. -/
theorem details?_eq_none_iff {failure : Failure} : failure.details? libraries = none ↔
    failure = .settings .homeless ∨ ∃ c, failure = .logging (.fileName c) := by
  cases failure with
  | settings e =>
    cases e with
    | settings e => cases e <;> simp [Failure.details?, LoadError.message?]
    | _ => simp [Failure.details?, LoadError.message?]
  | logging e => cases e <;> simp [Failure.details?, LoggingError.message?]
  | cap e => simp [Failure.details?]
  | program e => simp [Failure.details?]

theorem exists_details {failure : Failure} (h : Fails libraries options files stamp failure out)
    (hnamed : ¬ Misnames libraries options files) (hhome : ¬ Homeless options files) :
    ∃ details, failure.details? libraries = some details := by
  rw [← Option.ne_none_iff_exists']
  intro hnone
  rcases details?_eq_none_iff.1 hnone with rfl | ⟨c, rfl⟩
  · cases h with
    | settings hsettings => exact hhome (load_eq_homeless_iff.1 hsettings)
  · cases h with
    | logging hsettings hlogging => exact hnamed ⟨_, hsettings, setUp_eq_fileName_iff.1 ⟨c, hlogging⟩⟩

theorem not_spills (hcalm : ∀ settings logging opened, Settings.load libraries files options.config = .ok settings →
    setUpLogging options settings files = .ok (logging, opened) → logging.IsCalm opened) :
    ¬ Spills libraries options files stamp := by
  rintro ⟨failure, out, hfails, houtput⟩
  cases hfails with
  | settings hsettings => exact houtput rfl
  | logging hsettings hlogging => exact houtput rfl
  | cap hsettings hlogging hcap => exact houtput rfl
  | program hsettings hlogging hcap hprograms hbefore hname =>
    exact houtput (hbefore.kept (hcalm _ _ _ hsettings hlogging).kept).2

/-- No exception leaves the run: it ends with one of three exit codes, and with the one for input just if
something went wrong, which is then said in one message behind what was logged, while nothing is listed. -/
structure Contained (libraries : Libraries) (options : Options) (files : Files) (stamp : Log.Stamp) : Prop where
  exits : ∃ code ∈ [0, 1, 2], (run libraries options files stamp).ending = .exit code
  reported : ∀ failure out, Fails libraries options files stamp failure out →
    (run libraries options files stamp).ending = .exit 1 ∧ (run libraries options files stamp).output = [] ∧
      ∃ details, failure.details? libraries = some details ∧
        (run libraries options files stamp).diagnostics = out.console ++ [failure.beginning ++ details]
  fails_of_exit : (run libraries options files stamp).ending = .exit 1 →
    ∃ failure out, Fails libraries options files stamp failure out

theorem Contained.not_misnames (h : Contained libraries options files stamp) : ¬ Misnames libraries options files := by
  rintro ⟨settings, hsettings, hname⟩
  obtain ⟨c, hc⟩ := setUp_eq_fileName_iff.2 hname
  obtain ⟨_, _, details, hdetails, _⟩ := h.reported _ _ (.logging hsettings hc)
  cases hdetails

theorem exitCode_mem (options : Options) (i : Inference) : exitCode options i = 0 ∨ exitCode options i = 2 := by
  unfold exitCode
  split
  · exact .inr rfl
  · exact .inl rfl

/-- **Every run is contained unless** its settings name a log file by something that is no text, or are looked for in
the directory of a user who has none, or something was logged to the output before it failed. -/
theorem contained_iff (libraries : Libraries) (options : Options) (files : Files) (stamp : Log.Stamp) :
    Contained libraries options files stamp ↔
      ¬ (Misnames libraries options files ∨ Homeless options files ∨ Spills libraries options files stamp) := by
  constructor
  · rintro h (hmisnames | hhome | ⟨failure, out, hfails, houtput⟩)
    · exact h.not_misnames hmisnames
    · obtain ⟨_, _, details, hdetails, _⟩ := h.reported _ _ (.settings (load_eq_homeless_iff.2 hhome))
      cases hdetails
    · obtain ⟨_, hempty, details, hdetails, _⟩ := h.reported failure out hfails
      rw [run_of_fails hfails, hdetails] at hempty
      exact houtput hempty
  · intro hnot
    obtain ⟨hnamed, hnot⟩ := not_or.1 hnot
    obtain ⟨hhome, hspills⟩ := not_or.1 hnot
    have hreported : ∀ failure out, Fails libraries options files stamp failure out →
        (run libraries options files stamp).ending = .exit 1 ∧ (run libraries options files stamp).output = [] ∧
          ∃ details, failure.details? libraries = some details ∧
            (run libraries options files stamp).diagnostics = out.console ++ [failure.beginning ++ details] := by
      intro failure out hfails
      obtain ⟨details, hdetails⟩ := exists_details hfails hnamed hhome
      have hempty : out.output = [] := Classical.not_not.1 fun houtput => hspills ⟨failure, out, hfails, houtput⟩
      rw [run_of_fails hfails, hdetails]
      exact ⟨rfl, hempty, details, rfl, rfl⟩
    rcases fails_or_prepares libraries options files stamp with ⟨failure, out, hfails⟩ | ⟨logging, e, out, hprepares⟩
    · exact ⟨⟨1, by decide, (hreported failure out hfails).1⟩, hreported, fun _ => ⟨failure, out, hfails⟩⟩
    · obtain ⟨hending, _⟩ := run_of_prepares hprepares
      have hcode := exitCode_mem options e.infer
      refine ⟨⟨exitCode options e.infer, ?_, hending⟩, hreported, fun hexit => ?_⟩
      · rcases hcode with hcode | hcode
        · rw [hcode]; decide
        · rw [hcode]; decide
      · rw [hending, Ending.exit.injEq] at hexit
        omega

def numberedLogFile : Files := { items := [(["c.json"], .file (Text.encode "\x7b\"log_file\": 5\x7d"))] }

/-- A run whose settings name the log file by a number is aborted. -/
theorem run_aborts_at_number :
    ∃ options, read ["--demo", "--config", "c.json"] = .ok (.run options) ∧
      ∀ libraries, ¬ Contained libraries options numberedLogFile { plain := "", iso := "" } := by
  refine ⟨{ demo := true, config := some "c.json" }, by rfl, fun libraries h => h.not_misnames ?_⟩
  have hread : numberedLogFile.read (Files.Path.ofString "c.json").text =
      .ok (Text.encode "\x7b\"log_file\": 5\x7d") := Files.toOption_eq_some_iff.1 (by decide +kernel)
  have hjson : Json.read? "\x7b\"log_file\": 5\x7d".toList = some (.map [("log_file", .int 5)]) := by
    decide +kernel
  have hload : Settings.load libraries numberedLogFile (some "c.json") = .ok { logFile := .datum (.int 5) } :=
    Settings.loadFile_of_text (by decide) (Settings.contentOf_of_json (by decide) hjson) rfl hread
  exact ⟨_, hload, ⟨.info, by rfl⟩, by rfl, fun s hs => by cases hs⟩

end ForwardChaining.CommandLine
