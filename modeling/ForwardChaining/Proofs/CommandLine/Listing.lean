import ForwardChaining.Proofs.CommandLine.Endings
import ForwardChaining.Proofs.CommandLine.Report
import ForwardChaining.Proofs.Json.Ascii
import ForwardChaining.Yaml.Library

/-!
# What a run lists

A run that has all that it needs (`Ready`) loads its programs one after the other, each from the files as they stand
by then.  What has been logged in between is in the log file or in one of its older generations, and no program is
one of these, so that the programs are those that were there when logging was set up (`exists_loads`).  The engine that
comes of it holds what all of them state (`knowing`), and the run lists what this engine infers: `Ready.run`.

Programs state a set of facts and rules.  Neither the order of the programs nor that of the lines in them matters to
this set (`Ready.shuffled`), and the set is all that the engine knows (`knowing_equiv`) and that the output depends on:
`run_lists`.
-/

namespace ForwardChaining.CommandLine

open Notation (Program)

variable {libraries : Libraries} {options : Options} {files opened : Files} {settings : Settings} {logging : Logging}
  {cap : Cap} {ps : List Program} {name : String} {p : Program}

/-! ### What has to be there -/

/-- The file can be read as the program. -/
def Holds (files : Files) (name : String) (p : Program) : Prop :=
  ∃ text, programText files name = .ok text ∧ Notation.parseProgram text = .ok p

/-- Everything that a run needs is there: settings, logging, a cap, and programs that can be read once logging is
set up.  None of them is the log file or one of its older generations, and these are neither directories nor the
output. -/
structure Ready (libraries : Libraries) (options : Options) (files : Files) (settings : Settings) (logging : Logging)
    (opened : Files) (cap : Cap) (ps : List Program) : Prop where
  loads : Settings.load libraries files options.config = .ok settings
  logs : setUpLogging options settings files = .ok (logging, opened)
  caps : (cap.val : Int) = options.maxIterations.getD settings.cap.val
  holds : List.Forall₂ (Holds opened) options.programs ps
  apart : ∀ name ∈ options.programs, ∀ place, opened.locate name = .ok place → ¬ logging.Keeps opened place
  calm : logging.IsCalm opened

/-- The engine that holds what a run starts from, and all facts and rules of the programs. -/
def knowing (options : Options) (cap : Cap) (ps : List Program) : Engine :=
  ((start options cap).addStatements { facts := ps.flatMap Program.facts, rules := ps.flatMap Program.rules }).1

theorem knowing_gains (options : Options) (cap : Cap) (ps : List Program) :
    (start options cap).Gains (ps.flatMap Program.facts) (ps.flatMap Program.rules) (knowing options cap ps) :=
  (start options cap).addStatements_gains { facts := ps.flatMap Program.facts, rules := ps.flatMap Program.rules }

theorem Ready.capFor_eq (h : Ready libraries options files settings logging opened cap ps) :
    capFor options settings = .ok cap := by
  have hcap := h.caps
  unfold capFor
  cases hmax : options.maxIterations with
  | none =>
    rw [hmax, Option.getD_none] at hcap
    exact congrArg _ (Subtype.ext (by omega))
  | some n =>
    rw [hmax, Option.getD_some] at hcap
    subst hcap
    have hpos := cap.property
    show Cap.ofInt cap.val = .ok cap
    rw [Cap.ofInt, dif_pos (by omega)]
    exact congrArg _ (Subtype.ext (Int.toNat_natCast _))

/-! ### Loading -/

theorem programText_eq_ok_iff {text : String} : programText files name = .ok text ↔
    ∃ bytes cs, files.read name = .ok bytes ∧ Text.decode bytes = .ok cs ∧
      text = String.ofList (Text.unifyLineEnds cs) := by
  unfold programText
  cases files.read name with
  | error e => simp [bind, Except.bind, Except.mapError]
  | ok bytes =>
    cases hdecode : Text.decode bytes with
    | error e => simp [bind, Except.bind, Except.mapError, hdecode]
    | ok cs => simp [bind, Except.bind, Except.mapError, pure, Except.pure, hdecode, eq_comm]

theorem loadProgram_of_programText {text : String} (e : Engine)
    (htext : programText files name = .ok text) (hparse : Notation.parseProgram text = .ok p) :
    loadProgram files e name = .ok ((e.addStatements p).1, (e.addStatements p).2 ++ [.programLoaded name]) := by
  obtain ⟨bytes, cs, hread, hdecode, rfl⟩ := programText_eq_ok_iff.mp htext
  rw [loadProgram_of_read e hread, hdecode]
  dsimp only
  rw [hparse]

/-- **All programs are loaded**, whatever has been logged. -/
theorem exists_loads (libraries : Libraries) (stamp : Log.Stamp) {names : List String}
    (hprograms : List.Forall₂ (Holds opened) names ps)
    (hapart : ∀ name ∈ names, ∀ place, opened.locate name = .ok place → ¬ logging.Keeps opened place)
    (e : Engine) (out : Outlet) (hout : logging.Kept opened out) :
    ∃ e' out', Loads libraries logging stamp e out names e' out' ∧
      e.Gains (ps.flatMap Program.facts) (ps.flatMap Program.rules) e' := by
  induction hprograms generalizing e out with
  | nil => exact ⟨e, out, .nil e out, .refl e⟩
  | @cons name p names ps hname _ ih =>
    obtain ⟨text, htext, hparse⟩ := hname
    obtain ⟨hspared, hapart⟩ := List.forall_mem_cons.mp hapart
    obtain ⟨bytes, cs, hread, hdecode, rfl⟩ := programText_eq_ok_iff.mp htext
    have hread' : out.files.read name = .ok bytes := hout.1.read hspared hread
    have hload := loadProgram_of_programText e (programText_eq_ok_iff.mpr ⟨bytes, cs, hread', hdecode, rfl⟩) hparse
    obtain ⟨e', out', hloads, hgains⟩ := ih hapart (e.addStatements p).1 _ (hout.logAll _)
    exact ⟨e', out', .cons hload hloads, (e.addStatements_gains p).trans hgains⟩

/-- **A run lists what follows from its programs.** -/
theorem Ready.run (h : Ready libraries options files settings logging opened cap ps) (stamp : Log.Stamp) :
    (CommandLine.run libraries options files stamp).ending =
        .exit (exitCode options (knowing options cap ps).infer) ∧
      (CommandLine.run libraries options files stamp).output = report (knowing options cap ps).infer := by
  have hopened : logging.Kept opened { files := opened } := h.calm.kept
  obtain ⟨e, out, hloads, hgains⟩ := exists_loads libraries stamp h.holds h.apart (start options cap) _ hopened
  have hknowing : e = knowing options cap ps := hgains.unique (knowing_gains options cap ps)
  obtain ⟨hending, houtput⟩ := run_of_prepares (.intro h.loads h.logs h.capFor_eq hloads)
  rw [((hloads.kept hopened).logAll _).2, List.nil_append] at houtput
  rw [← hknowing]
  exact ⟨hending, houtput⟩

theorem Ready.isWritten_knowing (h : Ready libraries options files settings logging opened cap ps) :
    (knowing options cap ps).IsWritten := by
  have hwritten : ∀ p ∈ ps, (∀ a ∈ p.facts, a.IsWritten) ∧ ∀ r ∈ p.rules, r.IsWritten := by
    intro p hp
    obtain ⟨_, _, _, _, hparse⟩ :=
      forall_exists_iff_exists_forall₂.mpr ⟨options.programs, fun _ => id, h.holds.flip⟩ p hp
    exact Notation.isWritten_of_parseProgram hparse
  refine (knowing_gains options cap ps).isWritten ?_ (fun a ha => ?_) fun r hr => ?_
  · unfold start
    split
    · exact Engine.isWritten_philosophers cap
    · exact Engine.isWritten_empty cap
  · obtain ⟨p, hp, ha⟩ := List.mem_flatMap.mp ha
    exact (hwritten p hp).1 a ha
  · obtain ⟨p, hp, hr⟩ := List.mem_flatMap.mp hr
    exact (hwritten p hp).2 r hr

/-! ### Programs in another order -/

/-- **What an engine knows is a matter of which facts and rules there are**, in whatever order and however often. -/
theorem knowing_equiv (options : Options) (cap : Cap) {ps ps' : List Program}
    (hfacts : ∀ a, a ∈ ps.flatMap Program.facts ↔ a ∈ ps'.flatMap Program.facts)
    (hrules : ∀ r, r ∈ ps.flatMap Program.rules ↔ r ∈ ps'.flatMap Program.rules) :
    (knowing options cap ps).facts.roster ≈ (knowing options cap ps').facts.roster ∧
      (knowing options cap ps).rules ≈ (knowing options cap ps').rules := by
  have hgains := knowing_gains options cap
  constructor
  · intro a
    show (knowing options cap ps).facts.roster.contains a = _
    rw [(hgains ps).facts, (hgains ps').facts, Bool.eq_iff_iff, Roster.contains_insertAll,
      Roster.contains_insertAll]
    refine or_congr_right (exists_congr fun b => and_congr_left fun _ => ?_)
    rw [List.mem_filter, List.mem_filter, hfacts]
  · intro r
    show (knowing options cap ps).rules.contains r = _
    rw [(hgains ps).rules, (hgains ps').rules, Bool.eq_iff_iff, Roster.contains_insertAll,
      Roster.contains_insertAll]
    exact or_congr_right (exists_congr fun q => and_congr_left fun _ => hrules q)

/-- The same bytes, or two texts that have the same lines in some order. -/
def Shuffled (bytes bytes' : List UInt8) : Prop :=
  bytes = bytes' ∨ ∃ cs cs', Text.decode bytes = .ok cs ∧ Text.decode bytes' = .ok cs' ∧
    (Text.lines cs).Perm (Text.lines cs')

theorem Holds.unique {q : Program} (hp : Holds files name p) (hq : Holds files name q) : p = q := by
  obtain ⟨text, htext, hp⟩ := hp
  obtain ⟨text', htext', hq⟩ := hq
  rw [htext] at htext'
  obtain rfl := Except.ok.inj htext'
  rw [hp] at hq
  exact Except.ok.inj hq

/-- **A program whose lines are permuted states the same** in another order. -/
theorem Holds.shuffled {files' : Files} (hfiles : Files.Alike (fun _ => Shuffled) files files')
    (h : Holds files name p) : ∃ p', Holds files' name p' ∧ p.facts.Perm p'.facts ∧ p.rules.Perm p'.rules := by
  obtain ⟨text, htext, hparse⟩ := h
  obtain ⟨bytes, cs, hread, hdecode, rfl⟩ := programText_eq_ok_iff.mp htext
  obtain ⟨_, bytes', hread', hshuffled⟩ := hfiles.read (fun _ => .inl rfl) hread
  rcases hshuffled with rfl | ⟨cs₀, cs', hdecode₀, hdecode', hperm⟩
  · exact ⟨p, ⟨_, programText_eq_ok_iff.mpr ⟨bytes, cs, hread', hdecode, rfl⟩, hparse⟩, .refl _, .refl _⟩
  · rw [hdecode] at hdecode₀
    obtain rfl := Except.ok.inj hdecode₀
    obtain ⟨hlines, rfl⟩ := Notation.parseProgram_eq_ok_iff.mp hparse
    rw [← Text.lines_unifyLineEnds cs, ← Text.lines_unifyLineEnds cs',
      ← String.toList_ofList (l := Text.unifyLineEnds cs),
      ← String.toList_ofList (l := Text.unifyLineEnds cs')] at hperm
    have hparse' := Notation.parseProgram_eq_ok_iff.mpr
      ⟨fun line hline => hlines line (hperm.mem_iff.mpr hline), rfl⟩
    refine ⟨_, ⟨_, programText_eq_ok_iff.mpr ⟨bytes', cs', hread', hdecode', rfl⟩, hparse'⟩, ?_, ?_⟩
    · exact (hperm.filterMap _).filterMap _
    · exact (hperm.filterMap _).filterMap _

theorem mem_flatMap_iff {α β : Type} {f : α → List β} {xs ys : List α}
    (h : ∀ x ∈ xs, ∃ y ∈ ys, (f x).Perm (f y)) (h' : ∀ y ∈ ys, ∃ x ∈ xs, (f x).Perm (f y)) (b : β) :
    b ∈ xs.flatMap f ↔ b ∈ ys.flatMap f := by
  rw [List.mem_flatMap, List.mem_flatMap]
  constructor
  · rintro ⟨x, hx, hb⟩
    obtain ⟨y, hy, hperm⟩ := h x hx
    exact ⟨y, hy, hperm.mem_iff.mp hb⟩
  · rintro ⟨y, hy, hb⟩
    obtain ⟨x, hx, hperm⟩ := h' y hy
    exact ⟨x, hx, hperm.mem_iff.mpr hb⟩

/-- **A run needs no more with its programs in another order**, repeated and with their lines permuted, and then the
programs state the same. -/
theorem Ready.shuffled {files' : Files} {programs' : List String}
    (h : Ready libraries options files settings logging opened cap ps)
    (hprograms : ∀ name, name ∈ programs' ↔ name ∈ options.programs)
    (hfiles : Files.Alike (fun _ => Shuffled) files files')
    (hsettings : Settings.load libraries files' options.config = .ok settings) :
    ∃ opened' ps', Ready libraries { options with programs := programs' } files' settings logging opened' cap ps' ∧
      (∀ a, a ∈ ps.flatMap Program.facts ↔ a ∈ ps'.flatMap Program.facts) ∧
      ∀ r, r ∈ ps.flatMap Program.rules ↔ r ∈ ps'.flatMap Program.rules := by
  obtain ⟨opened', hlogs, halike⟩ := Logging.setUp_alike (fun _ => .inl rfl) h.logs hfiles
  have hholds : ∀ name ∈ options.programs, ∃ p, p ∈ ps ∧ Holds opened name p :=
    forall_exists_iff_exists_forall₂.mpr ⟨ps, fun _ => id, h.holds⟩
  have hheld : ∀ p ∈ ps, ∃ name, name ∈ options.programs ∧ Holds opened name p :=
    forall_exists_iff_exists_forall₂.mpr ⟨options.programs, fun _ => id, h.holds.flip⟩
  -- Each of the programs states what some program has stated before, and the other way round.
  have hpermuted : ∀ name ∈ programs', ∃ p',
      (∃ p ∈ ps, p.facts.Perm p'.facts ∧ p.rules.Perm p'.rules) ∧ Holds opened' name p' := by
    intro name hname
    obtain ⟨p, hp, hname⟩ := hholds name ((hprograms name).mp hname)
    obtain ⟨p', hname', hperm⟩ := hname.shuffled halike
    exact ⟨p', ⟨p, hp, hperm⟩, hname'⟩
  obtain ⟨ps', hps', hholds'⟩ := forall_exists_iff_exists_forall₂.mp hpermuted
  have hps : ∀ p ∈ ps, ∃ p' ∈ ps', p.facts.Perm p'.facts ∧ p.rules.Perm p'.rules := by
    intro p hp
    obtain ⟨name, hname, hp⟩ := hheld p hp
    obtain ⟨p', hp', hname'⟩ :=
      forall_exists_iff_exists_forall₂.mpr ⟨ps', fun _ => id, hholds'⟩ name ((hprograms name).mpr hname)
    obtain ⟨q, hq, hperm⟩ := hp.shuffled halike
    obtain rfl := hname'.unique hq
    exact ⟨p', hp', hperm⟩
  have hkeeps (place : Location) : logging.Keeps opened place ↔ logging.Keeps opened' place :=
    Logging.keeps_congr halike.workingDirectory halike.locate place
  refine ⟨opened', ps', ⟨hsettings, hlogs, h.caps, hholds', ?_, ?_⟩, fun a => ?_, fun r => ?_⟩
  · intro name hname place hplace hkept
    exact h.apart name ((hprograms name).mp hname) place (halike.locate name ▸ hplace) ((hkeeps place).mpr hkept)
  · exact fun place hkept => halike.quiet (h.calm place ((hkeeps place).mpr hkept))
  · exact mem_flatMap_iff (fun p hp => (hps p hp).imp fun _ h => ⟨h.1, h.2.1⟩)
      (fun p' hp' => (hps' p' hp').imp fun _ h => ⟨h.1, h.2.1⟩) a
  · exact mem_flatMap_iff (fun p hp => (hps p hp).imp fun _ h => ⟨h.1, h.2.2⟩)
      (fun p' hp' => (hps' p' hp').imp fun _ h => ⟨h.1, h.2.2⟩) r

/-! ### What is listed -/

/-- What a run that lists an inference leaves behind. -/
structure Lists (options : Options) (i : Inference) (o : Outcome) : Prop where
  /-- The number of facts, the facts in the order of their displays, and how the inference ended. -/
  output : ∃ listed : List String,
    o.output = ("--- Final Inferred Facts (" ++ toString i.facts.length ++ ") ---") :: listed ++
      ["Status: " ++ i.status.word ++ " after " ++ toString i.iterations ++ " iteration(s), "
        ++ toString i.derived.length ++ " derived"] ∧
    listed.Perm (i.facts.map fun a => "- " ++ a.display) ∧ listed.Pairwise (· ≤ ·)
  /-- Each of these is one line of what is printed. -/
  lines : Text.lines (printed o.output).toList = o.output.map String.toList
  /-- No name and no constant has a line end in it. -/
  written : ∀ a ∈ i.facts, a.IsWritten
  ending : o.ending = .exit (if options.strict = true ∧ i.status = .capExceeded then 2 else 0)

theorem exitCode_eq (options : Options) (i : Inference) :
    exitCode options i = if options.strict = true ∧ i.status = .capExceeded then 2 else 0 := by
  unfold exitCode Inference.reachedFixpoint
  cases options.strict <;> cases i.status <;> rfl

/-- **The command line lists what follows from its programs.**  If settings, logging, a cap and all programs can be
loaded, and no program is a generation of the log file, the facts are listed that follow from the programs and from
what the run starts with, and the exit code tells whether a strict run was capped.  Neither the output nor the exit
code depends on the order and the repetitions of the programs, or on the order of the lines in each of them, as long
as the settings are the same. -/
theorem run_lists (h : Ready libraries options files settings logging opened cap ps) (stamp : Log.Stamp) :
    Lists options (knowing options cap ps).infer (run libraries options files stamp) ∧
      ∀ (programs' : List String) (files' : Files) (stamp' : Log.Stamp),
        (∀ name, name ∈ programs' ↔ name ∈ options.programs) →
        Files.Alike (fun _ => Shuffled) files files' →
        Settings.load libraries files' options.config = .ok settings →
        (run libraries { options with programs := programs' } files' stamp').output =
            (run libraries options files stamp).output ∧
          (run libraries { options with programs := programs' } files' stamp').ending =
            (run libraries options files stamp).ending := by
  obtain ⟨hending, houtput⟩ := h.run stamp
  have hwritten := h.isWritten_knowing
  refine ⟨⟨?_, ?_, hwritten.infer, ?_⟩, ?_⟩
  · exact ⟨factLines _, houtput.trans (report_eq _), factLines_perm _, factLines_ordered _⟩
  · rw [houtput]
    exact lines_printed (isInline_of_mem_report hwritten.infer)
  · rw [hending, exitCode_eq]
  · intro programs' files' stamp' hprograms hfiles hsettings
    obtain ⟨opened', ps', hready, hfacts, hrules⟩ := h.shuffled hprograms hfiles hsettings
    obtain ⟨hending', houtput'⟩ := hready.run stamp'
    have hstart : knowing { options with programs := programs' } cap ps' = knowing options cap ps' := rfl
    have hwritten' : (knowing options cap ps').IsWritten := hready.isWritten_knowing
    rw [hstart] at hending' houtput'
    obtain ⟨hfacts, hrules⟩ := knowing_equiv options cap hfacts hrules
    have hcap : (knowing options cap ps).cap = (knowing options cap ps').cap :=
      (knowing_gains options cap ps).cap.trans (knowing_gains options cap ps').cap.symm
    obtain ⟨hreport, hstatus⟩ := report_congr hwritten hwritten' hcap hfacts hrules
    rw [hending, hending', houtput, houtput', hreport, exitCode_eq, exitCode_eq, hstatus]
    exact ⟨rfl, rfl⟩

/-! ### An example -/

theorem eq_ok_getD {ε α : Type} {x : Except ε α} (h : x.toOption.isSome = true) (a : α) :
    x = .ok (x.toOption.getD a) := by
  cases x with
  | error e => cases h
  | ok b => rfl

def loggingTo (name : String) : Location × Item :=
  (["c.json"], .file (Text.encode (Json.plain (.map [("log_file", .text name)]))))

theorem load_loggingTo {logFile : String}
    (hread : files.read "c.json" = .ok (Text.encode (Json.plain (.map [("log_file", .text logFile)])))) :
    Settings.load libraries files (some "c.json") = .ok { logFile := .text logFile } := by
  have hlines : AreLines (Json.plain (.map [("log_file", .text logFile)])).toList := by
    rw [Json.plain, String.toList_ofList]
    exact (Json.arePlain_plainText _).areLines
  have hjson : Json.read? (Json.plain (.map [("log_file", .text logFile)])).toList =
      some (.map [("log_file", .text logFile)]) := Json.read?_plain (by simp) (by simp)
  exact Settings.loadFile_of_text hlines (Settings.contentOf_of_json (by decide) hjson) rfl hread

/-- Two programs, of which the second escapes a letter. -/
def pairFiles (text : String) : Files := { items := [loggingTo "run.log",
  (["a.kb"], .file (Text.encode text)), (["b.kb"], .file (Text.encode "p(\"b\\nc\")."))] }

def pairText : String := "p(a)\np(?x) => q(?x)"

/-- The first program with its lines exchanged and with other line ends. -/
def pairTextExchanged : String := "p(?x) => q(?x)\r\np(a)\r\n"

def pairOptions : Options :=
  { programs := ["a.kb", "b.kb"], maxIterations := some 1, config := some "c.json", strict := true }

/-- The logging that the configuration asks for, and the files with the log file opened. -/
def pairLogging : Logging × Files :=
  (setUpLogging pairOptions { logFile := .text "run.log" } (pairFiles pairText)).toOption.getD ({ level := .info }, {})

def pairPrograms : List Program :=
  [pairText, "p(\"b\\nc\")."].map fun text => (Notation.parseProgram text).toOption.getD ⟨[], []⟩

theorem pair_ready (libraries : Libraries) :
    Ready libraries pairOptions (pairFiles pairText) { logFile := .text "run.log" } pairLogging.1 pairLogging.2
      ⟨1, by decide⟩ pairPrograms where
  loads := load_loggingTo (by rfl)
  logs := by
    have hlogs : setUpLogging pairOptions { logFile := .text "run.log" } (pairFiles pairText) = .ok pairLogging := by
      unfold pairLogging
      exact eq_ok_getD (by decide +kernel) _
    rw [hlogs, Prod.mk.eta]
  caps := rfl
  holds := by
    have hfirst : (programText pairLogging.2 "a.kb").toOption = some pairText := by decide +kernel
    have hsecond : (programText pairLogging.2 "b.kb").toOption = some "p(\"b\\nc\")." := by decide +kernel
    have hparses : ∀ text ∈ [pairText, "p(\"b\\nc\")."], (Notation.parseProgram text).toOption.isSome = true := by
      decide +kernel
    exact .cons ⟨pairText, Files.toOption_eq_some_iff.1 hfirst, eq_ok_getD (hparses _ (by simp)) _⟩
      (.cons ⟨_, Files.toOption_eq_some_iff.1 hsecond, eq_ok_getD (hparses _ (by simp)) _⟩ .nil)
  apart := by
    have hapart : ∀ name ∈ pairOptions.programs, ∀ place ∈ (pairLogging.2.locate name).toOption,
        ¬ pairLogging.1.Keeps pairLogging.2 place := by decide +kernel
    exact fun name hname place hplace => hapart name hname place (Files.toOption_eq_some_iff.2 hplace)
  calm := by decide +kernel

theorem pairFiles_alike {text text' : String} (h : Shuffled (Text.encode text) (Text.encode text')) :
    Files.Alike (fun _ => Shuffled) (pairFiles text) (pairFiles text') where
  workingDirectory := rfl
  item? place := by
    unfold Files.item? pairFiles loggingTo
    split
    · exact .some .directory
    · simp only [List.lookup_cons]
      split
      · exact .some (.file (.inl rfl))
      · split
        · exact .some (.file h)
        · split
          · exact .some (.file (.inl rfl))
          · exact .none

theorem pairText_shuffled : Shuffled (Text.encode pairText) (Text.encode pairTextExchanged) := by
  have hdecode : (Text.decode (Text.encode pairText)).toOption = some pairText.toList := by decide +kernel
  have hdecode' : (Text.decode (Text.encode pairTextExchanged)).toOption = some pairTextExchanged.toList := by
    decide +kernel
  exact .inr ⟨_, _, Files.toOption_eq_some_iff.1 hdecode, Files.toOption_eq_some_iff.1 hdecode', by decide +kernel⟩

def blank : Log.Stamp := { plain := "", iso := "" }

/-- The programs in another order, one of them repeated and the other with its lines exchanged. -/
theorem run_lists_pair :
    let options' := { pairOptions with programs := ["b.kb", "a.kb", "b.kb"] }
    let outcome := run Yaml.library pairOptions (pairFiles pairText) blank
    let outcome' := run Yaml.library options' (pairFiles pairTextExchanged) blank
    Ready Yaml.library pairOptions (pairFiles pairText) { logFile := .text "run.log" } pairLogging.1 pairLogging.2
        ⟨1, by decide⟩ pairPrograms ∧
      outcome'.output = outcome.output ∧ outcome'.ending = outcome.ending ∧ outcome.ending = .exit 2 := by
  intro options' outcome outcome'
  obtain ⟨hlists, hsame⟩ := run_lists (pair_ready Yaml.library) blank
  have hprograms : ∀ name, name ∈ ["b.kb", "a.kb", "b.kb"] ↔ name ∈ pairOptions.programs := by
    intro name
    show name ∈ ["b.kb", "a.kb", "b.kb"] ↔ name ∈ ["a.kb", "b.kb"]
    simp only [List.mem_cons, List.not_mem_nil, or_false]
    tauto
  obtain ⟨houtput, hending⟩ := hsame _ _ blank hprograms (pairFiles_alike pairText_shuffled) (load_loggingTo (by rfl))
  refine ⟨pair_ready Yaml.library, houtput, hending, hlists.ending.trans ?_⟩
  have hcapped : (knowing pairOptions ⟨1, by decide⟩ pairPrograms).infer.status = .capExceeded := by
    decide +kernel
  rw [hcapped]
  rfl

/-! ### Other runs -/

/-- A program that is its own configuration. -/
def scalarFiles (text : String) : Files := { items := [(["p.yaml"], .file (Text.encode text))] }

/-- A configuration that names the output for a log file. -/
def loudFiles : Files :=
  { items := [loggingTo "/dev/stdout", (["dev"], .directory), (["dev", "stdout"], .device .output)] }

/-- The youngest of the older generations of a log file: a program, or a directory with a program in it. -/
inductive Older where
  | program
  | directory

def Older.items : Older → List (Location × Item)
  | program => [(["run.log.1"], .file [])]
  | directory => [(["run.log.1"], .directory), (["run.log.1", "a.kb"], .file [])]

def Older.spelling : Older → String
  | program => "run.log.1"
  | directory => "run.log.1/a.kb"

/-- A log file and two programs without a line. -/
def agedFiles (bytes : List UInt8) (older : Older) : Files :=
  { items := (["run.log"], .file bytes) :: older.items ++ [loggingTo "run.log", (["b.kb"], .file [])] }

/-- A log file that is full, and no text. -/
def fullBytes : List UInt8 := 0xFF :: List.replicate LogFile.capacity 0

def agedLogging : Logging := { level := .info, file := some (.ofString "run.log") }

def agedOptions (first second : String) : Options := { programs := [first, second], config := some "c.json" }

variable {bytes : List UInt8} {error : Text.Utf8Error}

theorem setUpLogging_aged (older : Older) (first second : String) :
    setUpLogging (agedOptions first second) { logFile := .text "run.log" } (agedFiles bytes older) =
      .ok (agedLogging, agedFiles bytes older) := by
  have hmade : (agedFiles bytes older).makeDirectories (Files.Path.ofString "run.log").parent =
      .ok (agedFiles bytes older) := by rfl
  have hfull : (agedFiles bytes older).fullText (.ofString "run.log") = "/run.log" := by rfl
  have happend : (agedFiles bytes older).append "/run.log" [] = .ok (agedFiles (bytes ++ []) older) := by
    cases older <;> rfl
  have hopen : Logging.openFile (agedFiles bytes older) (.ofString "run.log") = .ok (agedFiles bytes older) := by
    rw [Logging.openFile, hmade, Except.bind, hfull, happend, List.append_nil]
  exact Logging.setUp_eq_ok_iff.mpr ⟨.info, by rfl, .inr ⟨.ofString "run.log", by rfl, hopen, rfl⟩⟩

/-- A line for which there is no room makes the log file the youngest of the older generations, and what this was is
no program any more. -/
theorem leaves_write_aged (hlong : LogFile.capacity ≤ bytes.length + 1) (hbytes : Text.decode bytes = .error error)
    (older : Older) (line : CodeText) : (LogFile.write (agedFiles bytes older) "/run.log" line).Leaves fun fs =>
      fs.read "b.kb" = .ok [] ∧ ∃ fault, Spoils fs older.spelling fault := by
  have hfull : LogFile.isFull (agedFiles bytes older) "/run.log" line =
      decide (LogFile.capacity ≤ bytes.length + (line.length + 1)) := by rfl
  rw [decide_eq_true (by omega)] at hfull
  obtain ⟨rest, hrotate, hrest, hleft⟩ : ∃ rest : List (Location × Item),
      LogFile.rotate (agedFiles bytes older) "/run.log" = .ok { items := (["run.log"], .file []) :: rest } ∧
        rest.filter (fun entry => entry.1 ≠ ["run.log"]) = rest ∧
        ∀ written, Files.read { items := (["run.log"], .file written) :: rest } "b.kb" = .ok [] ∧
          ∃ fault, Spoils { items := (["run.log"], .file written) :: rest } older.spelling fault := by
    cases older with
    | program =>
      exact ⟨[(["run.log.1"], .file bytes), (["run.log.2"], .file []), loggingTo "run.log", (["b.kb"], .file [])],
        by rfl, by rfl, fun written => ⟨by rfl, _, .undecoded (by rfl) hbytes⟩⟩
    | directory =>
      exact ⟨[(["run.log.1"], .file bytes), (["run.log.2"], .directory), (["run.log.2", "a.kb"], .file []),
        loggingTo "run.log", (["b.kb"], .file [])], by rfl, by rfl, fun written => ⟨by rfl, _, .unread (by rfl)⟩⟩
  rw [LogFile.write, if_pos hfull, hrotate, Except.bind]
  split
  next => exact hleft []
  next text _ =>
    refine LogFile.leaves_attempt (hleft []) fun fs hfs => ?_
    have happend (line : List UInt8) : Files.append { items := (["run.log"], .file []) :: rest } "/run.log" line =
        .ok { items := (["run.log"], .file line) :: rest.filter fun entry => entry.1 ≠ ["run.log"] } := by rfl
    rw [happend, hrest] at hfs
    cases hfs
    exact hleft _

theorem files_logAll_aged (hlong : LogFile.capacity ≤ bytes.length + 1) (hbytes : Text.decode bytes = .error error)
    (libraries : Libraries) (older : Older) (name : String) :
    let fs := (agedLogging.logAll libraries blank { files := agedFiles bytes older }
      [(Event.programLoaded name).record]).files
    fs.read "b.kb" = .ok [] ∧ ∃ fault, Spoils fs older.spelling fault := by
  have hdetail : Logging.isDetail "chainlog.cli" = false := by decide +kernel
  have hadmits : agedLogging.admits (Event.programLoaded name).record = true := by
    simp only [Logging.admits, Event.record, Event.logger, hdetail, Bool.false_and, Bool.false_eq_true, if_false]
    rfl
  have hfile : agedLogging.file = some (.ofString "run.log") := rfl
  dsimp only
  rw [Logging.logAll, List.foldl_cons, List.foldl_nil, Logging.log_eq hadmits hfile]
  exact Logging.files_write (Outlet.print { files := agedFiles bytes older } _)
    (leaves_write_aged hlong hbytes older _)

theorem loadProgram_empty (e : Engine) (h : files.read name = .ok []) :
    loadProgram files e name = .ok (e, [.programLoaded name]) := by
  rw [loadProgram_of_read e h]
  rfl

/-- **Which program comes first decides on the success of a run** that takes an older generation of its log file for a
program. -/
theorem ending_aged (hlong : LogFile.capacity ≤ bytes.length + 1) (hbytes : Text.decode bytes = .error error)
    (libraries : Libraries) (older : Older) :
    (run libraries (agedOptions older.spelling "b.kb") (agedFiles bytes older) blank).ending = .exit 0 ∧
      (run libraries (agedOptions "b.kb" older.spelling) (agedFiles bytes older) blank).ending = .exit 1 := by
  have hload : Settings.load libraries (agedFiles bytes older) (some "c.json") = .ok { logFile := .text "run.log" } :=
    load_loggingTo (by cases older <;> rfl)
  have hfirst : (agedFiles bytes older).read older.spelling = .ok [] := by cases older <;> rfl
  have hsecond : (agedFiles bytes older).read "b.kb" = .ok [] := by cases older <;> rfl
  constructor
  · have hlogged := files_logAll_aged hlong hbytes libraries older older.spelling
    exact (run_of_prepares (.intro hload (setUpLogging_aged older older.spelling "b.kb") rfl
      (.cons (loadProgram_empty _ hfirst) (.cons (loadProgram_empty _ hlogged.1) (.nil _ _))))).1
  · obtain ⟨-, fault, hspoils⟩ := files_logAll_aged hlong hbytes libraries older "b.kb"
    have hprograms : (agedOptions "b.kb" older.spelling).programs = ["b.kb"] ++ older.spelling :: [] := rfl
    rw [run_of_fails (.program hload (setUpLogging_aged older "b.kb" older.spelling) rfl hprograms
      (.cons (loadProgram_empty _ hsecond) (.nil _ _)) hspoils)]
    rfl

/-- **What a run leaves behind may depend on more** where a program is the configuration, too, and its lines make
another one in another order, where the log file is the output, and where a program is an older generation of the log
file or lies in a directory of such a name. -/
theorem run_lists_otherwise :
    (∃ options, read ["--config", "p.yaml", "p.yaml"] = .ok (.run options) ∧
      (Text.lines "# c\np(a)\nq(b)".toList).Perm (Text.lines "p(a)\n# c\nq(b)".toList) ∧
      (run Yaml.library options (scalarFiles "# c\np(a)\nq(b)") blank).ending = .exit 0 ∧
      (run Yaml.library options (scalarFiles "p(a)\n# c\nq(b)") blank).ending = .exit 1) ∧
    (∃ options, read ["--config", "c.json"] = .ok (.run options) ∧
      (run Yaml.library options loudFiles blank).ending = .exit 0 ∧
      (run Yaml.library options loudFiles blank).output.head? ≠ some "--- Final Inferred Facts (0) ---") ∧
    ∀ older : Older,
      (run Yaml.library (agedOptions older.spelling "b.kb") (agedFiles fullBytes older) blank).ending = .exit 0 ∧
        (run Yaml.library (agedOptions "b.kb" older.spelling) (agedFiles fullBytes older) blank).ending = .exit 1 := by
  refine ⟨⟨{ programs := ["p.yaml"], config := some "p.yaml" }, by rfl, by decide, ?_, ?_⟩,
    ⟨{ config := some "c.json" }, by rfl, ?_, ?_⟩, fun older => ?_⟩
  · decide +kernel
  · decide +kernel
  · decide +kernel
  · decide +kernel
  · have hlong : LogFile.capacity ≤ fullBytes.length + 1 := by
      rw [fullBytes, List.length_cons, List.length_replicate]
      omega
    obtain ⟨error, hbytes⟩ : ∃ error, Text.decode fullBytes = .error error := ⟨_, rfl⟩
    exact ending_aged hlong hbytes Yaml.library older

end ForwardChaining.CommandLine
