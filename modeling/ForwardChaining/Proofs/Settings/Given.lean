import ForwardChaining.Proofs.Files
import ForwardChaining.Proofs.Text.Ascii
import ForwardChaining.Settings.Loading

/-!
# What settings are given

Settings are read from what has been found under their keys, `Content.at?`, and where nothing is found the standard
ones hold.  So settings that are written as a map of their entries are read again from this map,
`ofContent_toContent`, and what they are read from is what they are written as wherever it gives something,
`at?_toContent`.
-/

namespace ForwardChaining

variable {c : Content} {s : Settings} {key : CodeText} {given : Content} {found : Option Content} {cap : Cap}

namespace Content

/-- What is found under a key.  Only maps have keys. -/
def under? (c : Content) (key : CodeText) : Option Content :=
  match c with
  | .datum (.map entries) => (Datum.lookup? entries key).map .datum
  | .map entries => entries.lookup (.text key)
  | _ => none

/-- What is found under keys, one within the other. -/
def at? (c : Content) (keys : List CodeText) : Option Content := keys.foldlM under? c

@[simp] theorem at?_singleton (c : Content) (key : CodeText) : c.at? [key] = c.under? key := by
  simp [at?]

@[simp] theorem at?_pair (c : Content) (key key' : CodeText) :
    c.at? [key, key'] = (c.under? key).bind fun found => found.under? key' := by
  simp [at?]

end Content

theorem Cap.ofContent_eq_ok_iff : Cap.ofContent c = .ok cap ↔ c = .datum (.int cap.val) := by
  constructor
  · intro h
    unfold Cap.ofContent at h
    split at h
    next n =>
      rw [Cap.ofInt] at h
      split at h
      next hn =>
        cases h
        simp [Int.toNat_of_nonneg (Int.le_trans (by decide) hn)]
      next => cases h
    next => cases h
  · rintro rfl
    have hpos : (1 : Int) ≤ cap.val := by exact_mod_cast cap.property
    rw [Cap.ofContent, Cap.ofInt, dif_pos hpos]
    simp

namespace Settings

theorem any_eq_false_iff_lookup {β γ : Type} [BEq β] [LawfulBEq β] [DecidableEq β] {entries : List (β × γ)} {k : β} :
    (entries.any fun e => e.1 = k) = false ↔ entries.lookup k = none := by
  simp only [List.any_eq_false, decide_eq_true_eq, List.lookup_eq_none_iff, bne_iff_ne]
  exact forall₂_congr fun e _ => not_congr eq_comm

theorem any_of_lookup {β γ : Type} [BEq β] [LawfulBEq β] [DecidableEq β] {entries : List (β × γ)} {k : β} {x : γ}
    (h : entries.lookup k = some x) : (entries.any fun e => e.1 = k) = true := by
  rw [← Bool.not_eq_false, any_eq_false_iff_lookup, h]
  exact nofun

theorem eq_under?_of_entry (h : entry c key = .ok found) : found = c.under? key := by
  unfold entry at h
  split at h
  next => cases h
  next hmentions =>
    -- a key that is not found has no value
    cases h
    cases c with
    | datum d =>
      cases d with
      | map entries =>
        have hnone : entries.lookup key = none := any_eq_false_iff_lookup.1 (Option.some.inj hmentions)
        simp [Content.under?, Datum.lookup?, hnone]
      | _ => rfl
    | thing t => rfl
    | map entries => exact (any_eq_false_iff_lookup.1 (Option.some.inj hmentions)).symm
  next =>
    split at h
    next => cases h; rfl
    next => cases h; rfl
    next => cases h

theorem entry_of_under? (h : c.under? key = some given) : entry c key = .ok (some given) := by
  cases c with
  | datum d =>
    cases d with
    | map entries =>
      obtain ⟨d, hlookup, rfl⟩ := Option.map_eq_some_iff.1 h
      have hmentions : mentions? (.datum (.map entries)) key = some true := congrArg some (any_of_lookup hlookup)
      simp only [entry, hmentions, hlookup, Option.map_some]
    | _ => cases h
  | thing t => cases h
  | map entries =>
    have hmentions : mentions? (.map entries) key = some true := congrArg some (any_of_lookup h)
    have hlookup : entries.lookup (.text key) = some given := h
    simp only [entry, hmentions, hlookup]

theorem eq_or_of_capOfSection (h : capOfSection c = .ok cap) :
    c.under? capKey = some (.datum (.int cap.val)) ∨ c.under? capKey = none ∧ cap = .standard := by
  unfold capOfSection at h
  split at h
  next entries =>
    split at h
    next => cases h
    split at h
    next hlookup =>
      cases h
      exact .inr ⟨by simp [Content.under?, hlookup], rfl⟩
    next d hlookup =>
      rw [← Cap.ofContent_eq_ok_iff.1 (Files.mapError_eq_ok_iff.1 h)]
      exact .inl (by simp [Content.under?, hlookup])
  next entries =>
    split at h
    next => cases h
    split at h
    next hlookup =>
      cases h
      exact .inr ⟨hlookup, rfl⟩
    next given hlookup =>
      rw [← Cap.ofContent_eq_ok_iff.1 (Files.mapError_eq_ok_iff.1 h)]
      exact .inl hlookup
  next => cases h

/-- **The cap of settings is the one that they are given**, and the standard one if they are given none. -/
theorem eq_or_of_capOf (h : capOf c = .ok cap) :
    c.at? ["inference", capKey] = some (.datum (.int cap.val)) ∨
      c.at? ["inference", capKey] = none ∧ cap = .standard := by
  obtain ⟨found, hentry, h⟩ := Files.bind_eq_ok h
  rw [Content.at?_pair, ← eq_under?_of_entry hentry]
  cases found with
  | none =>
    cases h
    exact .inr ⟨rfl, rfl⟩
  | some inference => exact eq_or_of_capOfSection h

theorem parts_of_ofContent (h : ofContent c = .ok s) :
    capOf c = .ok s.cap ∧ s.logLevel = (c.under? "log_level").getD (.text "INFO") ∧
      s.logFile = (c.under? "log_file").getD (.datum .null) ∧
      s.structuredLogging = (c.under? "structured_logging").getD (.datum (.bool false)) := by
  obtain ⟨cap, hcap, h⟩ := Files.bind_eq_ok h
  obtain ⟨logLevel, hlevel, h⟩ := Files.bind_eq_ok h
  obtain ⟨logFile, hfile, h⟩ := Files.bind_eq_ok h
  obtain ⟨structuredLogging, hstructured, h⟩ := Files.bind_eq_ok h
  cases h
  rw [← eq_under?_of_entry hlevel, ← eq_under?_of_entry hfile, ← eq_under?_of_entry hstructured]
  exact ⟨hcap, rfl, rfl, rfl⟩

/-! ### Files -/

variable {libraries : Libraries} {fs : Files} {path : Files.Path}

/-- **What is loaded from a file** of ASCII text is what this text holds, if it counts as anything. -/
theorem loadFile_of_text {text : String} (hlines : AreLines text.toList)
    (hcontent : contentOf libraries path text.toList = .ok c) (htruthy : c.truthy = true)
    (hread : fs.read path.text = .ok (Text.encode text)) :
    loadFile libraries fs path = (ofContent c).mapError .settings := by
  unfold loadFile
  simp only [hread, Text.decode_encode hlines, Text.unifyLineEnds_eq_self hlines, hcontent, htruthy, Except.mapError,
    bind, Except.bind, if_true]

theorem contentOf_of_json {text : List Char} {d : Datum} (hpath : isYaml path = false)
    (hjson : Json.read? text = some d) : contentOf libraries path text = .ok (.datum d) := by
  simp [contentOf, hpath, hjson]

theorem loadFile_ne_homeless (libraries : Libraries) (fs : Files) (path : Files.Path) :
    loadFile libraries fs path ≠ .error .homeless := by
  intro h
  rcases Files.bind_eq_error h with h | ⟨bytes, -, h⟩
  · obtain ⟨e, he⟩ := Files.exists_of_mapError_eq_error h
    cases he
  rcases Files.bind_eq_error h with h | ⟨text, -, h⟩
  · obtain ⟨e, he⟩ := Files.exists_of_mapError_eq_error h
    cases he
  rcases Files.bind_eq_error h with h | ⟨c, -, h⟩
  · unfold contentOf at h
    split at h
    next =>
      obtain ⟨e, he⟩ := Files.exists_of_mapError_eq_error h
      cases he
    next => split at h <;> cases h
  · obtain ⟨e, he⟩ := Files.exists_of_mapError_eq_error h
    cases he

/-! ### Settings as a map -/

theorem datum?_eq_some_iff {d : Datum} : c.datum? = some d ↔ c = .datum d := by
  cases c <;> simp [Content.datum?]

theorem toContent_cases (s : Settings) :
    (∃ logLevel logFile structuredLogging, s.logLevel = .datum logLevel ∧ s.logFile = .datum logFile ∧
      s.structuredLogging = .datum structuredLogging ∧
      s.toContent = .datum (.map [("inference", s.inferenceSection), ("log_level", logLevel), ("log_file", logFile),
        ("structured_logging", structuredLogging)])) ∨
    s.toContent = .map [(.text "inference", .datum s.inferenceSection), (.text "log_level", s.logLevel),
      (.text "log_file", s.logFile), (.text "structured_logging", s.structuredLogging)] := by
  rw [toContent]
  split
  next d h =>
    obtain ⟨logLevel, hlevel, h⟩ := Option.bind_eq_some_iff.1 h
    obtain ⟨logFile, hfile, h⟩ := Option.bind_eq_some_iff.1 h
    obtain ⟨structuredLogging, hstructured, h⟩ := Option.bind_eq_some_iff.1 h
    cases h
    exact .inl ⟨_, _, _, datum?_eq_some_iff.1 hlevel, datum?_eq_some_iff.1 hfile, datum?_eq_some_iff.1 hstructured, rfl⟩
  next => exact .inr rfl

theorem under?_toContent (s : Settings) :
    s.toContent.under? "inference" = some (.datum s.inferenceSection) ∧
      s.toContent.under? "log_level" = some s.logLevel ∧ s.toContent.under? "log_file" = some s.logFile ∧
        s.toContent.under? "structured_logging" = some s.structuredLogging := by
  obtain ⟨logLevel, logFile, structuredLogging, hlevel, hfile, hstructured, h⟩ | h := s.toContent_cases
  · rw [h, hlevel, hfile, hstructured]
    exact ⟨rfl, rfl, rfl, rfl⟩
  · rw [h]
    exact ⟨rfl, rfl, rfl, rfl⟩

theorem under?_inferenceSection (s : Settings) :
    (Content.datum s.inferenceSection).under? capKey = some (.datum (.int s.cap.val)) := by
  simp [inferenceSection, Content.under?, Datum.lookup?]

theorem capOfSection_inferenceSection (s : Settings) : capOfSection (.datum s.inferenceSection) = .ok s.cap := by
  have hcap : Cap.ofContent (.datum (.int s.cap.val)) = .ok s.cap := Cap.ofContent_eq_ok_iff.2 rfl
  simp [inferenceSection, capOfSection, Datum.lookup?, hcap, Except.mapError]

/-- **Settings are read from the map that they are written as.** -/
theorem ofContent_toContent (s : Settings) : ofContent s.toContent = .ok s := by
  obtain ⟨hinference, hlevel, hfile, hstructured⟩ := s.under?_toContent
  have hcap : capOf s.toContent = .ok s.cap := by
    rw [capOf, entry_of_under? hinference]
    exact s.capOfSection_inferenceSection
  rw [ofContent, hcap, entry_of_under? hlevel, entry_of_under? hfile, entry_of_under? hstructured]
  rfl

/-- The keys of settings, one within the other. -/
def keyPaths : List (List CodeText) :=
  [["inference", capKey], ["log_level"], ["log_file"], ["structured_logging"]]

/-- **Settings have what they were given**, and what is standard where they were given nothing. -/
theorem at?_toContent (h : ofContent c = .ok s) {keys : List CodeText} (hkeys : keys ∈ keyPaths) :
    s.toContent.at? keys = (c.at? keys).or ((toContent {}).at? keys) := by
  obtain ⟨hcap, hlevel, hfile, hstructured⟩ := parts_of_ofContent h
  have hown := s.under?_toContent
  have hstandard := under?_toContent {}
  have hsingle (key : CodeText) (held standard : Content) (hheld : s.toContent.under? key = some held)
      (hkey : (toContent {}).under? key = some standard) (hget : held = (c.under? key).getD standard) :
      s.toContent.at? [key] = (c.at? [key]).or ((toContent {}).at? [key]) := by
    rw [Content.at?_singleton, Content.at?_singleton, Content.at?_singleton, hheld, hkey, hget]
    cases c.under? key <;> rfl
  simp only [keyPaths, List.mem_cons, List.not_mem_nil, or_false] at hkeys
  rcases hkeys with rfl | rfl | rfl | rfl
  · have hat (s : Settings) : s.toContent.at? ["inference", capKey] = some (.datum (.int s.cap.val)) := by
      rw [Content.at?_pair, s.under?_toContent.1, Option.bind_some, under?_inferenceSection]
    rw [hat, hat]
    rcases eq_or_of_capOf hcap with hgiven | ⟨hnone, hcap⟩
    · rw [hgiven, Option.some_or]
    · rw [hnone, hcap, Option.none_or]
  · exact hsingle _ _ _ hown.2.1 hstandard.2.1 hlevel
  · exact hsingle _ _ _ hown.2.2.1 hstandard.2.2.1 hfile
  · exact hsingle _ _ _ hown.2.2.2 hstandard.2.2.2 hstructured

end Settings

end ForwardChaining
