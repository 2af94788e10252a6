import ForwardChaining.Log.Setup
import ForwardChaining.Proofs.Log.LogFile

/-!
# Logging and the other files

Records go to the generations of the log file and leave every other file alone.  Where none of these is the output
they print nothing there, either (`Kept.logAll`).  Setting logging up depends on nothing but which places hold
directories, files and devices: on alike files it comes to the same, and leaves them alike (`setUp_alike`).
-/

namespace ForwardChaining

open Files (Path)

namespace Logging

variable {fs fs' : Files} {l : Logging} {R : Location → List UInt8 → List UInt8 → Prop} {level file : Content}
  {forPrograms : Bool} {libraries : Libraries}

/-! ### Setting up -/

theorem setUp_eq_ok_iff :
    setUp fs level file forPrograms = .ok (l, fs') ↔ ∃ minimum, levelOf level = .ok minimum ∧
      ((fileOf file = .ok none ∧ l = { level := minimum, forPrograms } ∧ fs' = fs) ∨
        ∃ path, fileOf file = .ok (some path) ∧ openFile fs path = .ok fs' ∧
          l = { level := minimum, forPrograms, file := some path }) := by
  unfold setUp
  cases levelOf level with
  | error e => simp [bind, Except.bind]
  | ok minimum =>
    cases fileOf file with
    | error e => simp [bind, Except.bind]
    | ok path? =>
      cases path? with
      | none => simp [bind, Except.bind, pure, Except.pure, eq_comm]
      | some path =>
        cases hopen : openFile fs path with
        | error e => simp [bind, Except.bind, Except.mapError, hopen]
        | ok opened => simp [bind, Except.bind, Except.mapError, pure, Except.pure, hopen, eq_comm, and_comm]

/-- **On alike files logging is set up alike.** -/
theorem setUp_alike {gs : Files} (hR : ∀ place, R place [] [])
    (h : setUp fs level file forPrograms = .ok (l, fs')) (hgs : Files.Alike R fs gs) :
    ∃ gs', setUp gs level file forPrograms = .ok (l, gs') ∧ Files.Alike R fs' gs' := by
  obtain ⟨minimum, hlevel, ⟨hfile, hl, rfl⟩ | ⟨path, hfile, hopen, hl⟩⟩ := setUp_eq_ok_iff.mp h
  · exact ⟨gs, setUp_eq_ok_iff.mpr ⟨minimum, hlevel, .inl ⟨hfile, hl, rfl⟩⟩, hgs⟩
  · have hboth : Files.Concur R (openFile fs path) (openFile gs path) := by
      refine (hgs.makeDirectoriesAt path.parent _).bind fun made made' hmade => ?_
      rw [← hmade.fullText]
      refine hmade.revise _ (fun place bytes bytes' hbytes => ?_) fun place => hR place
      rwa [List.append_nil, List.append_nil]
    rw [hopen] at hboth
    generalize hopen' : openFile gs path = opened at hboth
    cases hboth with
    | ok halike => exact ⟨_, setUp_eq_ok_iff.mpr ⟨minimum, hlevel, .inr ⟨path, hfile, hopen', hl⟩⟩, halike⟩

/-! ### Records -/

/-- The place is that of the log file, or of one of its older generations. -/
def Keeps (l : Logging) (fs : Files) (place : Location) : Prop :=
  ∃ path k, l.file = some path ∧ k ≤ LogFile.backupCount ∧
    fs.locate (LogFile.generation (fs.fullText path) k) = .ok place

/-- The places of the log file and its older generations. -/
def places (l : Logging) (fs : Files) : List Location :=
  l.file.toList.flatMap fun path => (List.range (LogFile.backupCount + 1)).filterMap fun k =>
    (fs.locate (LogFile.generation (fs.fullText path) k)).toOption

theorem mem_places_iff {place : Location} : place ∈ l.places fs ↔ l.Keeps fs place := by
  simp only [places, Keeps, List.mem_flatMap, List.mem_filterMap, List.mem_range, Nat.lt_succ_iff, Option.mem_toList,
    Files.toOption_eq_some_iff, exists_and_left]

instance (l : Logging) (fs : Files) (place : Location) : Decidable (l.Keeps fs place) :=
  decidable_of_iff _ mem_places_iff

/-- The log file and its older generations are neither directories nor the output. -/
def IsCalm (l : Logging) (fs : Files) : Prop := ∀ place, l.Keeps fs place → Files.Quiet (fs.item? place)

instance (l : Logging) (fs : Files) : Decidable (l.IsCalm fs) :=
  decidable_of_iff (∀ place ∈ l.places fs, Files.Quiet (fs.item? place)) (by simp only [mem_places_iff, IsCalm])

/-- Nothing has changed but the generations of the log file, and nothing has been printed to the output. -/
def Kept (l : Logging) (fs : Files) (out : Outlet) : Prop := fs.AgreeOff (l.Keeps fs) out.files ∧ out.output = []

theorem IsCalm.kept (h : l.IsCalm fs) : l.Kept fs { files := fs } := ⟨.refl h, rfl⟩

theorem keeps_congr (hworking : fs.workingDirectory = fs'.workingDirectory)
    (h : ∀ spelling, fs.locate spelling = fs'.locate spelling) (place : Location) :
    l.Keeps fs place ↔ l.Keeps fs' place := by
  have hfull (path : Path) : fs.fullText path = fs'.fullText path := by
    unfold Files.fullText
    rw [hworking]
  simp only [Keeps, hfull, h]

variable {out : Outlet} {stamp : Log.Stamp}

theorem log_eq {path : Path} {r : Record} (hadmits : l.admits r = true) (hfile : l.file = some path) :
    l.log libraries stamp out r = (out.print (Text.printed (l.line stamp r))).write libraries (out.files.fullText path)
      (l.line stamp r) := by
  simp only [log, hadmits, hfile, Bool.not_true, Bool.false_eq_true, if_false, Outlet.print]

theorem files_write {Q : Files → Prop} {name : String} {line : CodeText} (out : Outlet)
    (h : (LogFile.write out.files name line).Leaves Q) : Q (out.write libraries name line).files := by
  unfold Outlet.write
  split
  next e files heq =>
    rw [heq] at h
    exact h
  next files heq =>
    rw [heq] at h
    dsimp only
    split <;> exact h

theorem Kept.write {path : Path} (hfile : l.file = some path) (h : l.Kept fs out) (line : CodeText) :
    l.Kept fs (out.write libraries (out.files.fullText path) line) := by
  obtain ⟨hfiles, houtput⟩ := h
  rw [← hfiles.fullText]
  have hname : LogFile.Within (l.Keeps fs) fs (fs.fullText path) :=
    fun k hk place hplace => ⟨path, k, hfile, hk, hplace⟩
  have hwrite := LogFile.leaves_write hname line hfiles
  unfold Outlet.write
  split
  next e files heq =>
    rw [heq] at hwrite
    exact ⟨hwrite, houtput⟩
  next files heq =>
    rw [heq] at hwrite
    have hfiles : fs.AgreeOff (l.Keeps fs) files := hwrite
    dsimp only
    split
    next hdevice =>
      -- the log file is quiet, and so no device that prints
      exfalso
      unfold Files.device? at hdevice
      split at hdevice
      next place hplace =>
        have hquiet := hfiles.quiet place (hname 0 (Nat.zero_le _) place (hfiles.locate_iff.2 hplace))
        split at hdevice
        next d hitem =>
          cases hdevice
          exact hquiet.2 hitem
        next => cases hdevice
      next => cases hdevice
    next => exact ⟨hfiles, houtput⟩
    next => exact ⟨hfiles, houtput⟩

theorem Kept.log (h : l.Kept fs out) (r : Record) : l.Kept fs (l.log libraries stamp out r) := by
  cases hadmits : l.admits r with
  | false =>
    rw [Logging.log, hadmits]
    exact h
  | true =>
    cases hfile : l.file with
    | none =>
      rw [Logging.log, hadmits, hfile]
      exact h
    | some path =>
      have hprinted : l.Kept fs (out.print (Text.printed (l.line stamp r))) := h
      rw [log_eq hadmits hfile]
      exact Kept.write hfile hprinted _

/-- **Records leave all files alone but the generations of the log file, and print nothing to the output.** -/
theorem Kept.logAll (h : l.Kept fs out) (rs : List Record) : l.Kept fs (l.logAll libraries stamp out rs) := by
  induction rs generalizing out with
  | nil => exact h
  | cons r rs ih => exact ih (h.log r)

end Logging

end ForwardChaining
