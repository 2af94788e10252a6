import Mathlib.Data.Option.Defs
import Mathlib.Tactic.SplitIfs
import ForwardChaining.Files

/-!
# Files that are alike

Files are alike (`Files.Alike`) if the same places hold directories, the same places hold files and the same places hold
the same devices, and if what two files in one place hold is related.  Which place a spelling leads to is a matter of
the directories alone (`locate_of_directories`), so that alike files are read from the same places (`Alike.read`), and
what is made in both of them is refused in both or leaves them alike (`Alike.makeDirectoriesAt`, `Alike.revise`).
-/

namespace ForwardChaining

/-- Both are directories, both are one device, or both are files with related bytes. -/
inductive Item.Alike (R : List UInt8 → List UInt8 → Prop) : Item → Item → Prop
  | directory : Alike R .directory .directory
  | device (d : Device) : Alike R (.device d) (.device d)
  | file {bytes bytes' : List UInt8} (h : R bytes bytes') : Alike R (.file bytes) (.file bytes')

namespace Files

variable {fs fs' : Files} {place p : Location} {item item' : Item} {names : List String} {spelling : String}
  {bytes bytes' : List UInt8}

/-! ### Places -/

theorem lookup_filter_ne {items : List (Location × Item)} (h : p ≠ place) :
    (items.filter fun entry => entry.1 ≠ place).lookup p = items.lookup p := by
  induction items with
  | nil => rfl
  | cons entry items ih =>
    obtain ⟨q, item⟩ := entry
    by_cases hq : q = place
    · subst hq
      rw [List.filter_cons_of_neg (by simp), ih, List.lookup_cons, beq_false_of_ne h]
    · rw [List.filter_cons_of_pos (by simpa using hq), List.lookup_cons, List.lookup_cons, ih]

/-- **What is put in a place is there**, and nothing else has changed. -/
theorem item?_put (h : place ≠ []) : (fs.put place item).item? p = if p = place then some item else fs.item? p := by
  by_cases hp : p = place
  · subst hp
    rw [if_pos rfl, item?, if_neg h, put, List.lookup_cons_self]
  · rw [if_neg hp, item?, item?, put, List.lookup_cons, beq_false_of_ne hp]
    exact congrArg _ (lookup_filter_ne hp)

theorem bind_eq_ok {ε α β : Type} {x : Except ε α} {next : α → Except ε β} {b : β} (h : x.bind next = .ok b) :
    ∃ a, x = .ok a ∧ next a = .ok b := by
  cases x with
  | error e => cases h
  | ok a => exact ⟨a, rfl, h⟩

theorem bind_eq_error {ε α β : Type} {x : Except ε α} {next : α → Except ε β} {e : ε} (h : x.bind next = .error e) :
    x = .error e ∨ ∃ a, x = .ok a ∧ next a = .error e := by
  cases x with
  | error e' =>
    cases h
    exact .inl rfl
  | ok a => exact .inr ⟨a, rfl, h⟩

theorem exists_of_mapError_eq_error {ε ε' α : Type} {x : Except ε α} {g : ε → ε'} {e : ε'}
    (h : x.mapError g = .error e) : ∃ e', g e' = e := by
  cases x with
  | error e' => exact ⟨e', Except.error.inj h⟩
  | ok a => cases h

theorem toOption_eq_some_iff {ε α : Type} {x : Except ε α} {a : α} : x.toOption = some a ↔ x = .ok a := by
  cases x <;> simp [Except.toOption]

theorem mapError_eq_ok_iff {ε ε' α : Type} {x : Except ε α} {g : ε → ε'} {a : α} :
    x.mapError g = .ok a ↔ x = .ok a := by
  cases x <;> simp [Except.mapError]

/-- **A way through directories stays** where there are more of them. -/
theorem walk_of_directories {r : Location}
    (h : ∀ p, fs.item? p = some .directory → fs'.item? p = some .directory) (hwalk : fs.walk place names = .ok r) :
    fs'.walk place names = .ok r := by
  induction names generalizing place with
  | nil => exact hwalk
  | cons name names ih =>
    rw [walk] at hwalk ⊢
    cases hitem : fs.item? place with
    | none => rw [hitem] at hwalk; cases hwalk
    | some item =>
      rw [hitem] at hwalk
      cases item with
      | file bytes => cases hwalk
      | device d => cases hwalk
      | directory =>
        rw [h place hitem]
        dsimp only at hwalk ⊢
        split_ifs at hwalk ⊢
        · exact ih hwalk
        · exact ih hwalk
        · exact ih hwalk

theorem locate_of_directories (hworking : fs.workingDirectory = fs'.workingDirectory)
    (h : ∀ p, fs.item? p = some .directory → fs'.item? p = some .directory) (hlocate : fs.locate spelling = .ok place) :
    fs'.locate spelling = .ok place := by
  unfold locate at hlocate ⊢
  dsimp only at hlocate ⊢
  rw [← hworking]
  split_ifs at hlocate ⊢
  · rw [mapError_eq_ok_iff] at hlocate ⊢
    exact walk_of_directories h hlocate
  · rw [mapError_eq_ok_iff] at hlocate ⊢
    exact walk_of_directories h hlocate

/-! ### Alike files -/

/-- The same places hold directories, and files whose bytes are related. -/
structure Alike (R : Location → List UInt8 → List UInt8 → Prop) (fs fs' : Files) : Prop where
  workingDirectory : fs.workingDirectory = fs'.workingDirectory
  item? : ∀ place, Option.Rel (Item.Alike (R place)) (fs.item? place) (fs'.item? place)

/-- Both results are the same error, or both are files and these are alike. -/
inductive Concur (R : Location → List UInt8 → List UInt8 → Prop) :
    Except FileError Files → Except FileError Files → Prop
  | error (e : FileError) : Concur R (.error e) (.error e)
  | ok {fs fs' : Files} (h : Alike R fs fs') : Concur R (.ok fs) (.ok fs')

variable {R : Location → List UInt8 → List UInt8 → Prop}

theorem Alike.refl (hR : ∀ place bytes, R place bytes bytes) (fs : Files) : Alike R fs fs where
  workingDirectory := rfl
  item? place := by
    cases fs.item? place with
    | none => exact .none
    | some item =>
      cases item with
      | directory => exact .some .directory
      | device d => exact .some (.device d)
      | file bytes => exact .some (.file (hR place bytes))

theorem Alike.cases (h : Alike R fs fs') (place : Location) :
    (fs.item? place = fs'.item? place ∧ ∀ bytes, fs.item? place ≠ some (.file bytes)) ∨
      ∃ bytes bytes', fs.item? place = some (.file bytes) ∧ fs'.item? place = some (.file bytes') ∧
        R place bytes bytes' := by
  have hitem := h.item? place
  generalize fs.item? place = item at hitem
  generalize fs'.item? place = item' at hitem
  cases hitem with
  | none => exact .inl ⟨rfl, nofun⟩
  | some hitem =>
    cases hitem with
    | directory => exact .inl ⟨rfl, nofun⟩
    | device d => exact .inl ⟨rfl, nofun⟩
    | file hbytes => exact .inr ⟨_, _, rfl, rfl, hbytes⟩

theorem Alike.walk (h : Alike R fs fs') (place : Location) (names : List String) :
    fs.walk place names = fs'.walk place names := by
  induction names generalizing place with
  | nil => rfl
  | cons name names ih =>
    rw [Files.walk, Files.walk]
    rcases h.cases place with ⟨hsame, _⟩ | ⟨_, _, hitem, hitem', _⟩
    · rw [hsame, ih, ih, ih]
    · rw [hitem, hitem']

/-- **A spelling leads to the same place.** -/
theorem Alike.locate (h : Alike R fs fs') (spelling : String) : fs.locate spelling = fs'.locate spelling := by
  unfold Files.locate
  dsimp only
  rw [h.workingDirectory, h.walk]

theorem Alike.fullText (h : Alike R fs fs') (path : Path) : fs.fullText path = fs'.fullText path := by
  unfold Files.fullText
  rw [h.workingDirectory]

theorem read_eq_ok_iff : fs.read spelling = .ok bytes ↔
    ∃ place, fs.locate spelling = .ok place ∧
      (fs.item? place = some (.file bytes) ∨ bytes = [] ∧ ∃ d, fs.item? place = some (.device d)) := by
  unfold read
  cases fs.locate spelling with
  | error e => simp [Except.bind]
  | ok place =>
    dsimp only [Except.bind]
    constructor
    · intro h
      refine ⟨place, rfl, ?_⟩
      split at h
      · next hitem =>
        cases h
        exact .inl hitem
      · next d hitem =>
        cases h
        exact .inr ⟨rfl, d, hitem⟩
      · cases h
      · cases h
    · rintro ⟨_, hplace, hitem | ⟨rfl, d, hitem⟩⟩ <;> cases hplace <;> rw [hitem]

/-- **What can be read in one can be read in the other.** -/
theorem Alike.read (h : Alike R fs fs') (hempty : ∀ place, R place [] []) (hread : fs.read spelling = .ok bytes) :
    ∃ place bytes', fs'.read spelling = .ok bytes' ∧ R place bytes bytes' := by
  obtain ⟨place, hplace, hitem⟩ := read_eq_ok_iff.mp hread
  have hplace' := h.locate spelling ▸ hplace
  refine ⟨place, ?_⟩
  rcases h.cases place with ⟨hsame, hnot⟩ | ⟨_, bytes', hfile, hfile', hbytes⟩
  · obtain hfile | ⟨rfl, hdevice⟩ := hitem
    · exact absurd hfile (hnot bytes)
    · exact ⟨[], read_eq_ok_iff.mpr ⟨place, hplace', .inr ⟨rfl, hsame ▸ hdevice⟩⟩, hempty place⟩
  · obtain hitem | ⟨_, d, hitem⟩ := hitem <;> rw [hfile] at hitem <;> cases hitem
    exact ⟨bytes', read_eq_ok_iff.mpr ⟨place, hplace', .inl hfile'⟩, hbytes⟩

/-! ### Changes -/

theorem Alike.put (h : Alike R fs fs') (hplace : place ≠ []) (hitem : item.Alike (R place) item') :
    Alike R (fs.put place item) (fs'.put place item') where
  workingDirectory := h.workingDirectory
  item? p := by
    rw [item?_put hplace, item?_put hplace]
    split
    · next hp =>
      subst hp
      exact .some hitem
    · exact h.item? p

theorem ne_nil_of_item? {held : Option Item} (h : fs.item? place = held) (hheld : held ≠ some .directory) :
    place ≠ [] := by
  rintro rfl
  exact hheld h.symm

/-- What a successful change does: it puts a file in the place that the spelling leads to, where no directory was, or
goes to a device. -/
theorem revise_eq_ok {change : List UInt8 → List UInt8} (h : fs.revise spelling change = .ok fs') :
    ∃ place, fs.locate spelling = .ok place ∧
      ((∃ d, fs.item? place = some (.device d)) ∧ fs' = fs ∨
        fs.item? place ≠ some .directory ∧ ∃ bytes, fs' = fs.put place (.file (change bytes))) := by
  obtain ⟨place, hplace, h⟩ := bind_eq_ok h
  refine ⟨place, hplace, ?_⟩
  cases hitem : fs.item? place with
  | none =>
    rw [hitem] at h
    cases h
    exact .inr ⟨nofun, _, rfl⟩
  | some item =>
    rw [hitem] at h
    cases item with
    | directory => cases h
    | device d =>
      cases h
      exact .inl ⟨⟨d, rfl⟩, rfl⟩
    | file bytes =>
      cases h
      exact .inr ⟨nofun, _, rfl⟩

theorem locate_put_file (hitem : fs.item? place ≠ some .directory) (h : fs.locate spelling = .ok p) :
    (fs.put place (.file bytes)).locate spelling = .ok p := by
  have hroot : place ≠ [] := ne_nil_of_item? rfl hitem
  have hdirectories : ∀ q, fs.item? q = some .directory → (fs.put place (.file bytes)).item? q = some .directory := by
    intro q hq
    have hne : q ≠ place := by
      rintro rfl
      exact hitem hq
    rw [item?_put hroot, if_neg hne, hq]
  refine locate_of_directories ?_ hdirectories h
  rfl

theorem device?_of_item? {d : Device} (hplace : fs.locate spelling = .ok place)
    (hitem : fs.item? place = some (.device d)) : fs.device? spelling = some d := by
  simp only [device?, hplace, hitem]

/-- **What was written is read**, unless it went to a device. -/
theorem read_of_write (h : fs.write spelling bytes = .ok fs') (hdevice : fs'.device? spelling = none) :
    fs'.read spelling = .ok bytes := by
  obtain ⟨place, hplace, ⟨⟨d, hitem⟩, rfl⟩ | ⟨hitem, _, rfl⟩⟩ := revise_eq_ok h
  · rw [device?_of_item? hplace hitem] at hdevice
    cases hdevice
  · exact read_eq_ok_iff.2 ⟨place, locate_put_file hitem hplace,
      .inl (by rw [item?_put (ne_nil_of_item? rfl hitem), if_pos rfl])⟩

theorem Alike.revise (h : Alike R fs fs') {change : List UInt8 → List UInt8} (spelling : String)
    (hchange : ∀ place bytes bytes', R place bytes bytes' → R place (change bytes) (change bytes'))
    (hnew : ∀ place, R place (change []) (change [])) :
    Concur R (fs.revise spelling change) (fs'.revise spelling change) := by
  unfold Files.revise
  rw [← h.locate]
  cases fs.locate spelling with
  | error e => exact .error e
  | ok place =>
    dsimp only [Except.bind]
    rcases h.cases place with ⟨hsame, hnot⟩ | ⟨_, _, hitem, hitem', hbytes⟩
    · rw [← hsame]
      cases hitem : fs.item? place with
      | none => exact .ok (h.put (ne_nil_of_item? hitem nofun) (.file (hnew place)))
      | some item =>
        cases item with
        | directory => exact .error _
        | device d => exact .ok h
        | file bytes => exact absurd hitem (hnot bytes)
    · rw [hitem, hitem']
      exact .ok (h.put (ne_nil_of_item? hitem nofun) (.file (hchange place _ _ hbytes)))

theorem Alike.makeDirectory (h : Alike R fs fs') (spelling : String) :
    Concur R (fs.makeDirectory spelling) (fs'.makeDirectory spelling) := by
  unfold Files.makeDirectory
  rw [← h.locate]
  cases fs.locate spelling with
  | error e => exact .error e
  | ok place =>
    dsimp only [Except.bind]
    rcases h.cases place with ⟨hsame, _⟩ | ⟨_, _, hitem, hitem', _⟩
    · rw [← hsame]
      cases hitem : fs.item? place with
      | none => exact .ok (h.put (ne_nil_of_item? hitem nofun) .directory)
      | some item => exact .error _
    · rw [hitem, hitem']
      exact .error _

theorem Alike.isDirectory (h : Alike R fs fs') (spelling : String) :
    fs.isDirectory spelling = fs'.isDirectory spelling := by
  unfold Files.isDirectory
  rw [← h.locate]
  cases fs.locate spelling with
  | error e => rfl
  | ok place =>
    dsimp only
    rcases h.cases place with ⟨hsame, _⟩ | ⟨_, _, hitem, hitem', _⟩
    · rw [hsame]
    · rw [hitem, hitem']

theorem Concur.bind {a b : Except FileError Files} {next next' : Files → Except FileError Files} (h : Concur R a b)
    (hnext : ∀ fs fs', Alike R fs fs' → Concur R (next fs) (next' fs')) : Concur R (a.bind next) (b.bind next') := by
  cases h with
  | error e => exact .error e
  | ok h => exact hnext _ _ h

theorem Alike.makeDirectoryIn (h : Alike R fs fs') (spelling : String)
    {above above' : FileError → Except FileError Files} (habove : ∀ e, Concur R (above e) (above' e)) :
    Concur R (fs.makeDirectoryIn spelling above) (fs'.makeDirectoryIn spelling above') := by
  unfold Files.makeDirectoryIn
  have hmade := h.makeDirectory spelling
  generalize fs.makeDirectory spelling = made at hmade
  generalize fs'.makeDirectory spelling = made' at hmade
  cases hmade with
  | ok h => exact .ok h
  | error e =>
    dsimp only
    rw [← h.isDirectory]
    split_ifs
    · exact habove e
    · exact .ok h
    · exact .error e

theorem Alike.makeDirectoriesAt (h : Alike R fs fs') (path : Path) (count : Nat) :
    Concur R (fs.makeDirectoriesAt path count) (fs'.makeDirectoriesAt path count) := by
  induction count generalizing path with
  | zero => exact .ok h
  | succ count ih =>
    refine h.makeDirectoryIn path.text fun _ => (ih path.parent).bind fun made made' hmade => ?_
    exact hmade.makeDirectoryIn path.text .error

end Files

end ForwardChaining
