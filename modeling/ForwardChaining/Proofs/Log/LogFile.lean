import ForwardChaining.Log.LogFile
import ForwardChaining.Proofs.Files

/-!
# What the log file takes with it

Writing to the log file may move the file and its older generations about.  Nothing else changes: the files agree with
what they were (`Files.AgreeOff`) off the places that the names of the generations lead to, and at these places there
are neither directories, so that all ways through the directories stay, nor the output.  Each operation on the files
keeps to this, and so does a line, whether it is written or lost: `LogFile.leaves_write`.
-/

namespace ForwardChaining

/-- Neither a directory nor the output. -/
def Files.Quiet (item : Option Item) : Prop := item ≠ some .directory ∧ item ≠ some (.device .output)

instance (item : Option Item) : Decidable (Files.Quiet item) := inferInstanceAs (Decidable (_ ∧ _))

namespace Files

variable {fs fs₀ : Files} {P : Location → Prop} {place p : Location} {item : Item} {spelling source target : String}
  {bytes : List UInt8}

theorem Alike.quiet {fs' : Files} {R : Location → List UInt8 → List UInt8 → Prop} (h : Alike R fs fs')
    (hquiet : Quiet (fs.item? place)) : Quiet (fs'.item? place) := by
  rcases h.cases place with ⟨hsame, -⟩ | ⟨_, _, -, hitem, -⟩
  · exact hsame ▸ hquiet
  · rw [hitem]
    exact ⟨nofun, nofun⟩

/-- The same is in all places but those of which `P` holds, and there is something quiet in these. -/
structure AgreeOff (P : Location → Prop) (fs₀ fs : Files) : Prop where
  workingDirectory : fs₀.workingDirectory = fs.workingDirectory
  same : ∀ place, ¬ P place → fs.item? place = fs₀.item? place
  quiet₀ : ∀ place, P place → Quiet (fs₀.item? place)
  quiet : ∀ place, P place → Quiet (fs.item? place)

theorem AgreeOff.refl (h : ∀ place, P place → Quiet (fs.item? place)) : AgreeOff P fs fs := ⟨rfl, fun _ _ => rfl, h, h⟩

theorem AgreeOff.directory_iff (h : AgreeOff P fs₀ fs) :
    fs₀.item? p = some .directory ↔ fs.item? p = some .directory := by
  by_cases hp : P p
  · exact iff_of_false (h.quiet₀ p hp).1 (h.quiet p hp).1
  · rw [h.same p hp]

/-- **Spellings lead to the same places.** -/
theorem AgreeOff.locate_iff (h : AgreeOff P fs₀ fs) : fs₀.locate spelling = .ok p ↔ fs.locate spelling = .ok p :=
  ⟨locate_of_directories h.workingDirectory fun _ => h.directory_iff.1,
    locate_of_directories h.workingDirectory.symm fun _ => h.directory_iff.2⟩

theorem AgreeOff.fullText (h : AgreeOff P fs₀ fs) (path : Path) : fs₀.fullText path = fs.fullText path := by
  unfold Files.fullText
  rw [h.workingDirectory]

/-- **What is in none of these places is read as before.** -/
theorem AgreeOff.read (h : AgreeOff P fs₀ fs) (hspelling : ∀ place, fs₀.locate spelling = .ok place → ¬ P place)
    (hread : fs₀.read spelling = .ok bytes) : fs.read spelling = .ok bytes := by
  obtain ⟨place, hplace, hitem⟩ := read_eq_ok_iff.1 hread
  rw [← h.same place (hspelling place hplace)] at hitem
  exact read_eq_ok_iff.2 ⟨place, h.locate_iff.1 hplace, hitem⟩

theorem ne_of_not (hp : ¬ P p) (hplace : P place) : p ≠ place := by
  rintro rfl
  exact hp hplace

theorem AgreeOff.ne_nil (h : AgreeOff P fs₀ fs) (hplace : P place) : place ≠ [] :=
  ne_nil_of_item? rfl (h.quiet place hplace).1

/-! ### Changes at these places -/

theorem item?_drop (h : place ≠ []) : (fs.drop place).item? p = if p = place then none else fs.item? p := by
  by_cases hp : p = place
  · subst hp
    rw [if_pos rfl, item?, if_neg h, drop, List.lookup_eq_none_iff]
    intro entry hentry
    rw [List.mem_filter, decide_eq_true_eq] at hentry
    exact bne_iff_ne.2 fun heq => hentry.2 heq.symm
  · rw [if_neg hp, item?, item?, drop]
    exact congrArg _ (lookup_filter_ne hp)

/-- A change at one of these places keeps to them, if it leaves something quiet there. -/
theorem AgreeOff.change {fs' : Files} (h : AgreeOff P fs₀ fs) (hplace : P place)
    (hworking : fs.workingDirectory = fs'.workingDirectory) (hsame : ∀ p, p ≠ place → fs'.item? p = fs.item? p)
    (hquiet : Quiet (fs'.item? place)) : AgreeOff P fs₀ fs' where
  workingDirectory := h.workingDirectory.trans hworking
  same p hp := (hsame p (ne_of_not hp hplace)).trans (h.same p hp)
  quiet₀ := h.quiet₀
  quiet p hp := by
    by_cases hne : p = place
    · rwa [hne]
    · rw [hsame p hne]
      exact h.quiet p hp

theorem AgreeOff.put (h : AgreeOff P fs₀ fs) (hplace : P place) (hitem : Quiet (some item)) :
    AgreeOff P fs₀ (fs.put place item) := by
  have hnil : place ≠ [] := h.ne_nil hplace
  refine h.change hplace rfl (fun p hp => ?_) ?_
  · rw [item?_put hnil, if_neg hp]
  · rwa [item?_put hnil, if_pos rfl]

theorem AgreeOff.drop (h : AgreeOff P fs₀ fs) (hplace : P place) : AgreeOff P fs₀ (fs.drop place) := by
  have hnil : place ≠ [] := h.ne_nil hplace
  refine h.change hplace rfl (fun p hp => ?_) ?_
  · rw [item?_drop hnil, if_neg hp]
  · rw [item?_drop hnil, if_pos rfl]
    exact ⟨nofun, nofun⟩

theorem AgreeOff.remove {fs' : Files} (h : AgreeOff P fs₀ fs)
    (hplaces : ∀ place, fs₀.locate spelling = .ok place → P place) (hremove : fs.remove spelling = .ok fs') :
    AgreeOff P fs₀ fs' := by
  obtain ⟨place, hplace, hremove⟩ := bind_eq_ok hremove
  split at hremove
  next => cases hremove
  next =>
    cases hremove
    exact h.drop (hplaces place (h.locate_iff.2 hplace))
  next => cases hremove

theorem AgreeOff.rename {fs' : Files} (h : AgreeOff P fs₀ fs)
    (hsource : ∀ place, fs₀.locate source = .ok place → P place)
    (htarget : ∀ place, fs₀.locate target = .ok place → P place) (hrename : fs.rename source target = .ok fs') :
    AgreeOff P fs₀ fs' := by
  obtain ⟨place, hplace, hrename⟩ := bind_eq_ok hrename
  obtain ⟨goal, hgoal, hrename⟩ := bind_eq_ok hrename
  have hfrom : P place := hsource place (h.locate_iff.2 hplace)
  have hquiet := h.quiet place hfrom
  split at hrename
  next => cases hrename
  next => cases hrename
  next hitem _ => exact absurd hitem hquiet.1
  next hitem _ =>
    cases hrename
    exact (h.drop hfrom).put (htarget goal (h.locate_iff.2 hgoal)) (hitem ▸ hquiet)

theorem AgreeOff.revise {fs' : Files} {change : List UInt8 → List UInt8} (h : AgreeOff P fs₀ fs)
    (hplaces : ∀ place, fs₀.locate spelling = .ok place → P place) (hrevise : fs.revise spelling change = .ok fs') :
    AgreeOff P fs₀ fs' := by
  obtain ⟨place, hplace, ⟨_, rfl⟩ | ⟨_, bytes, rfl⟩⟩ := revise_eq_ok hrevise
  · exact h
  · exact h.put (hplaces place (h.locate_iff.2 hplace)) ⟨nofun, nofun⟩

end Files

namespace LogFile

variable {fs fs₀ : Files} {Q : Files → Prop} {P : Location → Prop} {name : String}

/-- Whether the attempt fails or not, the files that are left have a property. -/
def Attempt.Leaves (Q : Files → Prop) : Attempt → Prop
  | .ok fs => Q fs
  | .error (_, fs) => Q fs

theorem Attempt.Leaves.bind {a : Attempt} {next : Files → Attempt} (h : a.Leaves Q)
    (hnext : ∀ fs, Q fs → (next fs).Leaves Q) : Attempt.Leaves Q (a.bind next) := by
  cases a with
  | error e => exact h
  | ok fs => exact hnext fs h

theorem leaves_attempt {outcome : Except FileError Files} (h : Q fs) (houtcome : ∀ fs', outcome = .ok fs' → Q fs') :
    (attempt fs outcome).Leaves Q := by
  cases outcome with
  | error e => exact h
  | ok fs' => exact houtcome fs' rfl

/-- The names of all generations lead to places of which `P` holds. -/
def Within (P : Location → Prop) (fs : Files) (name : String) : Prop :=
  ∀ k ≤ backupCount, ∀ place, fs.locate (generation name k) = .ok place → P place

theorem leaves_supersede (hname : Within P fs₀ name) {k m : Nat} (hk : k ≤ backupCount) (hm : m ≤ backupCount)
    (h : fs₀.AgreeOff P fs) : (supersede fs (generation name k) (generation name m)).Leaves (fs₀.AgreeOff P) := by
  refine .bind ?_ fun fs h => leaves_attempt h fun fs' hrename => h.rename (hname k hk) (hname m hm) hrename
  split
  · exact leaves_attempt h fun fs' hremove => h.remove (hname m hm) hremove
  · exact h

theorem leaves_age (hname : Within P fs₀ name) {count : Nat} (hcount : count ≤ backupCount) (h : fs₀.AgreeOff P fs) :
    (age fs name count).Leaves (fs₀.AgreeOff P) := by
  induction count generalizing fs with
  | zero => exact h
  | succ n ih =>
    refine .bind ?_ fun fs h => ih (Nat.le_of_succ_le hcount) h
    split
    · exact leaves_supersede hname (Nat.le_of_succ_le hcount) hcount h
    · exact h

/-- **A line leaves everything alone but the generations of the log file**, whether it is written or lost. -/
theorem leaves_write (hname : Within P fs₀ name) (line : CodeText) (h : fs₀.AgreeOff P fs) :
    (write fs name line).Leaves (fs₀.AgreeOff P) := by
  have happend (fs : Files) (bytes : List UInt8) (h : fs₀.AgreeOff P fs) :
      (attempt fs (fs.append name bytes)).Leaves (fs₀.AgreeOff P) :=
    leaves_attempt h fun fs' hrevise => h.revise (hname 0 (Nat.zero_le _)) hrevise
  refine .bind ?_ fun fs h => ?_
  · split
    · exact (leaves_age hname (Nat.le_refl _) h).bind fun fs h => happend fs [] h
    · exact h
  · split
    · exact h
    · exact happend fs _ h

end LogFile

end ForwardChaining
