import ForwardChaining.Proofs.Settings.Given
import ForwardChaining.Settings.Session
import ForwardChaining.Yaml.Library
import Mathlib.Data.List.DropRight

/-!
# What a session remembers

A session, the files around it and the engines that are made go through steps in any order.  What the session has
then is read off the steps alone, `held?`: what it was given last since it was forgotten, or else what it found when
it first looked for settings and found some.

* `settings_act`: what one step does to the session.
* `settings_actAll`: what the session has after a history, by induction on the history from its end.
* `actAll_recalls`: what it answers then.
-/

namespace ForwardChaining

open Files (Path)

variable {libraries : Libraries} {fs : Files} {c : Content} {s : Settings} {paths : List Path}

namespace Settings

/-! ### Looking for settings -/

/-- The outcome of a look for settings is that of the first path where something is, and the standard settings are
found where nothing is.  It fails for a user without a directory, and at a path that cannot even be looked at. -/
inductive LooksUp (libraries : Libraries) (fs : Files) : Except LoadError Settings → Prop where
  | found {home path : Path} {before after : List Path} (hhome : fs.home = some home)
      (hpaths : searchPaths home = before ++ path :: after) (hbefore : ∀ p ∈ before, fs.check p.text = .ok false)
      (hpath : fs.check path.text = .ok true) : LooksUp libraries fs (loadFile libraries fs path)
  | nowhere {home : Path} (hhome : fs.home = some home) (h : ∀ p ∈ searchPaths home, fs.check p.text = .ok false) :
      LooksUp libraries fs (.ok {})
  | refused {home path : Path} {before after : List Path} {e : FileError} (hhome : fs.home = some home)
      (hpaths : searchPaths home = before ++ path :: after) (hbefore : ∀ p ∈ before, fs.check p.text = .ok false)
      (hpath : fs.check path.text = .error e) : LooksUp libraries fs (.error (.file e))
  | homeless (hhome : fs.home = none) : LooksUp libraries fs (.error .homeless)

theorem firstThere_append {before : List Path} (h : ∀ p ∈ before, fs.check p.text = .ok false) (rest : List Path) :
    firstThere fs (before ++ rest) = firstThere fs rest := by
  induction before with
  | nil => rfl
  | cons path before ih =>
    obtain ⟨hpath, hbefore⟩ := List.forall_mem_cons.1 h
    rw [List.cons_append, firstThere, hpath]
    exact ih hbefore

theorem firstThere_of_forall (h : ∀ p ∈ paths, fs.check p.text = .ok false) : firstThere fs paths = .ok none := by
  simpa [firstThere] using firstThere_append h []

theorem forall_or_exists_first (fs : Files) (paths : List Path) : (∀ p ∈ paths, fs.check p.text = .ok false) ∨
    ∃ before path after, paths = before ++ path :: after ∧ (∀ p ∈ before, fs.check p.text = .ok false) ∧
      fs.check path.text ≠ .ok false := by
  induction paths with
  | nil => exact .inl nofun
  | cons path paths ih =>
    by_cases hpath : fs.check path.text = .ok false
    · obtain hrest | ⟨before, last, after, rfl, hbefore, hlast⟩ := ih
      · exact .inl (List.forall_mem_cons.2 ⟨hpath, hrest⟩)
      · exact .inr ⟨path :: before, last, after, rfl, List.forall_mem_cons.2 ⟨hpath, hbefore⟩, hlast⟩
    · exact .inr ⟨[], path, paths, rfl, nofun, hpath⟩

theorem looksUp_load (libraries : Libraries) (fs : Files) : LooksUp libraries fs (load libraries fs none) := by
  rw [load, search]
  split
  next hhome => exact .homeless hhome
  next home hhome =>
    obtain hnone | ⟨before, path, after, hpaths, hbefore, hpath⟩ := forall_or_exists_first fs (searchPaths home)
    · rw [firstThere_of_forall hnone]
      exact .nowhere hhome hnone
    · rw [hpaths, firstThere_append hbefore, firstThere]
      cases hcheck : fs.check path.text with
      | error e => exact .refused hhome hpaths hbefore hcheck
      | ok isThere =>
        cases isThere with
        | false => exact absurd hcheck hpath
        | true => exact .found hhome hpaths hbefore hcheck

/-- **Where no file is named, settings are looked for.** -/
theorem looksUp_iff {outcome : Except LoadError Settings} :
    LooksUp libraries fs outcome ↔ load libraries fs none = outcome := by
  constructor
  · intro h
    rw [load, search]
    cases h with
    | found hhome hpaths hbefore hpath =>
      simp only [hhome, hpaths, firstThere_append hbefore, firstThere, hpath, Except.bind, if_true]
    | nowhere hhome h => simp only [hhome, firstThere_of_forall h]
    | refused hhome hpaths hbefore hpath =>
      simp only [hhome, hpaths, firstThere_append hbefore, firstThere, hpath, Except.bind]
    | homeless hhome => simp only [hhome]
  · rintro rfl
    exact looksUp_load libraries fs

end Settings

namespace Session

/-! ### Steps -/

/-- What can happen to a session and to the files around it. -/
inductive Step where
  | get
  | set (settings : Settings)
  | reset
  | forget
  /-- The files change in some way: one is written, say, or removed. -/
  | alter (change : Files → Files)
  /-- An engine is made, with the cap that is given if there is one. -/
  | engine (given : Option Content)

structure World where
  session : Session := {}
  files : Files

namespace World

def act (libraries : Libraries) (w : World) : Step → World
  | .get => { w with session := (w.session.get libraries w.files).2 }
  | .set settings => { w with session := w.session.set settings }
  | .reset => { w with session := w.session.reset }
  | .forget => { w with session := w.session.forget }
  | .alter change => { w with files := change w.files }
  | .engine given => { w with session := (w.session.engine libraries w.files given).2 }

def actAll (libraries : Libraries) (w : World) (history : List Step) : World := history.foldl (act libraries) w

end World

namespace Step

def given? : Step → Option Settings
  | set settings => some settings
  | reset => some {}
  | _ => none

/-- Whether a step makes the session look for settings, unless it has some. -/
def looks : Step → Bool
  | get => true
  | engine none => true
  | _ => false

def isForget : Step → Bool
  | forget => true
  | _ => false

def filesBehind (files : Files) : Step → Files
  | alter change => change files
  | _ => files

end Step

/-! ### What is to be remembered -/

/-- The steps of a history, each with the files as it finds them. -/
def timed (files : Files) : List Step → List (Step × Files)
  | [] => []
  | step :: rest => (step, files) :: timed (step.filesBehind files) rest

/-- The steps since the session was last forgotten. -/
def sinceForgotten (files : Files) (history : List Step) : List (Step × Files) :=
  (timed files history).rtakeWhile fun moment => !moment.1.isForget

def lastGiven? (moments : List (Step × Files)) : Option Settings :=
  moments.reverse.findSome? fun moment => moment.1.given?

def found? (libraries : Libraries) (step : Step) (files : Files) : Option Settings :=
  if step.looks then (Settings.load libraries files none).toOption else none

def firstFound? (libraries : Libraries) (moments : List (Step × Files)) : Option Settings :=
  moments.findSome? fun moment => found? libraries moment.1 moment.2

/-- The settings that a session has after a history: those last given since it was forgotten, or else those first
found. -/
def held? (libraries : Libraries) (files : Files) (history : List Step) : Option Settings :=
  (lastGiven? (sinceForgotten files history)).or (firstFound? libraries (sinceForgotten files history))

/-! ### Histories -/

theorem settings_get (libraries : Libraries) (session : Session) (fs : Files) :
    (session.get libraries fs).2.settings = session.settings.or (Settings.load libraries fs none).toOption := by
  rw [get]
  cases hsettings : session.settings with
  | some settings => simpa using hsettings
  | none =>
    cases Settings.load libraries fs none with
    | ok settings => rfl
    | error e => simpa [Except.toOption] using hsettings

/-- **What a step does to the session.** -/
theorem settings_act (libraries : Libraries) (w : World) (step : Step) : (w.act libraries step).session.settings =
    if step.isForget then none else step.given?.or (w.session.settings.or (found? libraries step w.files)) := by
  cases step with
  | get => exact settings_get libraries w.session w.files
  | set settings => rfl
  | reset => rfl
  | forget => rfl
  | alter change => simp [World.act, Step.isForget, Step.given?, found?, Step.looks]
  | engine given =>
    cases given with
    | none => exact settings_get libraries w.session w.files
    | some d => simp [World.act, engine, capFor, Step.isForget, Step.given?, found?, Step.looks]

theorem files_actAll (libraries : Libraries) (w : World) (history : List Step) :
    (w.actAll libraries history).files = history.foldl Step.filesBehind w.files := by
  induction history generalizing w with
  | nil => rfl
  | cons step history ih =>
    have hfiles : (w.act libraries step).files = step.filesBehind w.files := by cases step <;> rfl
    rw [List.foldl_cons, ← hfiles]
    exact ih (w.act libraries step)

theorem actAll_concat (libraries : Libraries) (w : World) (history : List Step) (step : Step) :
    w.actAll libraries (history ++ [step]) = (w.actAll libraries history).act libraries step := by
  rw [World.actAll, List.foldl_concat, World.actAll]

theorem timed_concat (files : Files) (history : List Step) (step : Step) :
    timed files (history ++ [step]) = timed files history ++ [(step, history.foldl Step.filesBehind files)] := by
  induction history generalizing files with
  | nil => rfl
  | cons first history ih => exact congrArg _ (ih _)

theorem held?_concat (libraries : Libraries) (files : Files) (history : List Step) (step : Step) :
    held? libraries files (history ++ [step]) = if step.isForget then none
      else step.given?.or ((held? libraries files history).or
        (found? libraries step (history.foldl Step.filesBehind files))) := by
  rw [held?, sinceForgotten, timed_concat]
  split
  next h =>
    rw [List.rtakeWhile_concat_neg _ _ _ (by simp [h])]
    rfl
  next h =>
    rw [List.rtakeWhile_concat_pos _ _ _ (by simp [h]), ← sinceForgotten, lastGiven?, firstFound?,
      List.reverse_concat, List.findSome?_append, held?, List.findSome?_cons]
    cases step.given? with
    | some settings => rfl
    | none =>
      dsimp only
      rw [List.findSome?_singleton, ← Option.or_assoc, Option.none_or, lastGiven?, firstFound?]

/-- **After a history a session has what it was last given or first found.** -/
theorem settings_actAll (libraries : Libraries) (files : Files) (history : List Step) :
    (World.actAll libraries { files } history).session.settings = held? libraries files history := by
  induction history using List.reverseRecOn with
  | nil => rfl
  | append_singleton history step ih => rw [actAll_concat, settings_act, ih, files_actAll, held?_concat]

/-! ### What a session answers -/

theorem get_of_settings {session : Session} (h : session.settings = some s) (fs : Files) :
    session.get libraries fs = (.ok s, session) := by
  rw [get, h]

theorem get_of_none {session : Session} (h : session.settings = none) (fs : Files) :
    (session.get libraries fs).1 = Settings.load libraries fs none := by
  rw [get, h]
  cases Settings.load libraries fs none with
  | ok settings => rfl
  | error e => rfl

/-- **A look that fails leaves nothing behind.** -/
theorem get_of_error {session : Session} {e : LoadError} (h : (session.get libraries fs).1 = .error e) :
    session.settings = none ∧ (session.get libraries fs).2 = session := by
  rw [get] at h ⊢
  cases hsettings : session.settings with
  | some settings =>
    rw [hsettings] at h
    cases h
  | none =>
    rw [hsettings] at h
    cases hload : Settings.load libraries fs none with
    | ok settings =>
      rw [hload] at h
      cases h
    | error e => exact ⟨rfl, rfl⟩

theorem settings_get_of_ok {session : Session} (h : (session.get libraries fs).1 = .ok s) :
    (session.get libraries fs).2.settings = some s := by
  rw [settings_get]
  cases hsettings : session.settings with
  | some settings =>
    rw [get_of_settings hsettings] at h
    cases h
    rfl
  | none =>
    rw [get_of_none hsettings] at h
    rw [h]
    rfl

/-- **Settings are kept** until others are given or the session is forgotten. -/
theorem settings_actAll_of_some {w : World} {later : List Step} (h : w.session.settings = some s)
    (hlater : ∀ step ∈ later, step.given? = none ∧ step.isForget = false) :
    (w.actAll libraries later).session.settings = some s := by
  induction later generalizing w with
  | nil => exact h
  | cons step later ih =>
    obtain ⟨⟨hgiven, hforget⟩, hlater⟩ := List.forall_mem_cons.1 hlater
    refine ih ?_ hlater
    rw [settings_act, hforget, hgiven, h]
    rfl

theorem engine_none (libraries : Libraries) (session : Session) (fs : Files) : session.engine libraries fs none =
    (((session.get libraries fs).1.map fun s => ({ cap := s.cap } : Engine)).mapError .load,
      (session.get libraries fs).2) := by
  rw [engine, capFor]
  obtain ⟨outcome, session⟩ := session.get libraries fs
  cases outcome with
  | ok s => rfl
  | error e => rfl

theorem engine_some (libraries : Libraries) (session : Session) (fs : Files) (c : Content) :
    session.engine libraries fs (some c) = (((Cap.ofContent c).map fun cap => { cap }).mapError .cap, session) := by
  rw [engine, capFor]
  cases Cap.ofContent c with
  | ok cap => rfl
  | error e => rfl

/-- What a session recalls after a history that began with these files, when nothing had been looked for. -/
structure Recalls (libraries : Libraries) (files : Files) (history : List Step) (w : World) : Prop where
  files_eq : w.files = history.foldl Step.filesBehind files
  /-- What was given last since the session was forgotten is answered, or else what was found first. -/
  held : ∀ s, held? libraries files history = some s → (w.session.get libraries w.files).1 = .ok s
  /-- Where there is nothing of either, the session looks in the files as they are now. -/
  afresh : held? libraries files history = none →
    Settings.LooksUp libraries w.files (w.session.get libraries w.files).1
  looks : ∀ fs outcome, Settings.LooksUp libraries fs outcome ↔ Settings.load libraries fs none = outcome
  /-- An answer is kept, whatever becomes of the files and whichever engines are made. -/
  kept : ∀ s later, (w.session.get libraries w.files).1 = .ok s →
    (∀ step ∈ later, step.given? = none ∧ step.isForget = false) →
      ∀ w', w' = (w.act libraries .get).actAll libraries later → (w'.session.get libraries w'.files).1 = .ok s
  /-- A look that fails leaves nothing behind, so that the next one is made in the files as they are then. -/
  failed : ∀ e, (w.session.get libraries w.files).1 = .error e → (w.act libraries .get).session.settings = none ∧
    ∀ fs, Settings.LooksUp libraries fs ((w.act libraries .get).session.get libraries fs).1
  engine_none : w.session.engine libraries w.files none =
    (((w.session.get libraries w.files).1.map fun s => ({ cap := s.cap } : Engine)).mapError .load,
      (w.session.get libraries w.files).2)
  /-- An engine that is given a cap has this one, if it is one, and the session looks for nothing. -/
  engine_some : ∀ fs c, (w.session.engine libraries fs (some c)).2 = w.session ∧
    ∀ engine, (w.session.engine libraries fs (some c)).1 = .ok engine ↔
      ∃ cap : Cap, c = .datum (.int cap.val) ∧ engine = ({ cap } : Engine)
  /-- Settings have the positive integer that they were given for a cap, and the standard cap if they were given
  none. -/
  caps : ∀ c s, Settings.ofContent c = .ok s → 1 ≤ s.cap.val ∧
    (c.at? ["inference", Settings.capKey] = some (.datum (.int s.cap.val)) ∨
      c.at? ["inference", Settings.capKey] = none ∧ s.cap = .standard)

/-- **A session recalls what it was given last or found first**, and looks again where it has found nothing. -/
theorem actAll_recalls (libraries : Libraries) (files : Files) (history : List Step) :
    Recalls libraries files history (World.actAll libraries { files } history) where
  files_eq := files_actAll libraries _ history
  held s h := by rw [get_of_settings ((settings_actAll libraries files history).trans h)]
  afresh h := by
    rw [Settings.looksUp_iff, get_of_none ((settings_actAll libraries files history).trans h)]
  looks fs outcome := Settings.looksUp_iff
  kept s later h hlater w' hw' := by
    subst hw'
    rw [get_of_settings (settings_actAll_of_some (settings_get_of_ok h) hlater)]
  failed e h := by
    obtain ⟨hnone, hsession⟩ := get_of_error h
    have hact : ((World.actAll libraries { files } history).act libraries .get).session.settings = none := by
      rw [World.act, hsession, hnone]
    exact ⟨hact, fun fs => Settings.looksUp_iff.2 (get_of_none hact fs).symm⟩
  engine_none := Session.engine_none _ _ _
  engine_some fs c := by
    rw [Session.engine_some]
    refine ⟨rfl, fun engine => ?_⟩
    rw [Files.mapError_eq_ok_iff]
    constructor
    · intro h
      cases hcap : Cap.ofContent c with
      | error e =>
        rw [hcap] at h
        cases h
      | ok cap =>
        rw [hcap] at h
        cases h
        exact ⟨cap, Cap.ofContent_eq_ok_iff.1 hcap, rfl⟩
    · rintro ⟨cap, hd, rfl⟩
      rw [Cap.ofContent_eq_ok_iff.2 hd]
      rfl
  caps c s h := ⟨s.cap.property, Settings.eq_or_of_capOf (Settings.parts_of_ofContent h).1⟩

def cappedFiles (cap : String) : Files := { items := [(["chainlog_config.json"],
  .file (Text.encode ("\x7b\"inference\": \x7b\"max_iterations\": " ++ cap ++ "\x7d\x7d")))] }

/-- A cap is refused where it is looked for first, and the one that is then found for an engine outlasts the file. -/
theorem actAll_recalls_found :
    let history : List Step :=
      [.get, .alter fun _ => cappedFiles "7", .engine none, .alter fun _ => cappedFiles "9"]
    let w := World.actAll Yaml.library { files := cappedFiles "0" } history
    (held? Yaml.library (cappedFiles "0") history).map (fun s => s.cap.val) = some 7 ∧
      (w.session.get Yaml.library w.files).1.toOption.map (fun s => s.cap.val) = some 7 := by
  intro history w
  have hheld : (held? Yaml.library (cappedFiles "0") history).map (fun s => s.cap.val) = some 7 := by decide +kernel
  obtain ⟨s, hs, hcap⟩ := Option.map_eq_some_iff.1 hheld
  refine ⟨hheld, ?_⟩
  rw [(actAll_recalls Yaml.library (cappedFiles "0") history).held s hs]
  exact congrArg some hcap

end Session

end ForwardChaining
