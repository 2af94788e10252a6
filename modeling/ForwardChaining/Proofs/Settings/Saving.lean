import ForwardChaining.Proofs.Json.Ascii
import ForwardChaining.Proofs.Json.Reading
import ForwardChaining.Proofs.Settings.Given
import ForwardChaining.Yaml.Library

/-!
# Settings survive saving

Settings are written as a map of their entries and read from it again, and nothing of a file's path, its bytes or its
line ends comes between: what is written is ASCII, the suffix decides on the format in both directions alike, and
settings are never among the data that count as none.  What comes between is the format, if it does not give back what
it was given, and a device, which keeps nothing.

* `toContent_of_datum`: settings that were read from plain data are written as plain data.
* `load_of_save`: what was saved is loaded, if the format gives it back.
* `ofContent_survives`: all of it about settings that were read from plain data with distinct keys.
-/

namespace ForwardChaining

open Files (Path)

variable {libraries : Libraries} {fs fs' : Files} {path : Path} {d : Datum} {s : Settings} {c : Content}

/-- What is written as YAML is ASCII, and is read again. -/
structure Libraries.KeepsYaml (libraries : Libraries) (c : Content) : Prop where
  ascii : AreLines (libraries.writeYaml c).toList
  reads : libraries.readYaml (libraries.writeYaml c).toList = .ok c

namespace Settings

/-! ### Plain data -/

theorem under?_datum (d : Datum) (key : CodeText) (standard : Datum) : ∃ held,
    ((Content.datum d).under? key).getD (.datum standard) = .datum held ∧
      (d.KeysDistinct → standard.KeysDistinct → held.KeysDistinct) ∧
      (Json.UnpairedIn d → Json.UnpairedIn standard → Json.UnpairedIn held) := by
  cases d with
  | map entries =>
    cases hlookup : entries.lookup key with
    | none => exact ⟨standard, by simp [Content.under?, Datum.lookup?, hlookup], fun _ h => h, fun _ h => h⟩
    | some held =>
      obtain ⟨before, behind, rfl, -⟩ := List.lookup_eq_some_iff.1 hlookup
      exact ⟨held, by simp [Content.under?, Datum.lookup?, hlookup],
        fun h _ => (Datum.keysDistinct_map.1 h).2 (key, held) (by simp),
        fun h _ => (Json.unpairedIn_map.1 h).2 (key, held) (by simp)⟩
  | _ => exact ⟨standard, rfl, fun _ h => h, fun _ h => h⟩

/-- **Settings that were read from plain data are written as plain data**, whose keys are distinct and whose texts are
unpaired if it was so before. -/
theorem toContent_of_datum (h : ofContent (.datum d) = .ok s) : ∃ written, s.toContent = .datum written ∧
    s.datum? = some written ∧ (d.KeysDistinct → written.KeysDistinct) ∧
      (Json.UnpairedIn d → Json.UnpairedIn written) := by
  obtain ⟨-, hlevel, hfile, hstructured⟩ := parts_of_ofContent h
  obtain ⟨level, hlevel', hlevelKeys, hlevelTexts⟩ := under?_datum d "log_level" (.text "INFO")
  obtain ⟨file, hfile', hfileKeys, hfileTexts⟩ := under?_datum d "log_file" .null
  obtain ⟨structured, hstructured', hstructuredKeys, hstructuredTexts⟩ :=
    under?_datum d "structured_logging" (.bool false)
  rw [hlevel'] at hlevel
  rw [hfile'] at hfile
  rw [hstructured'] at hstructured
  have hdatum : s.datum? = some (.map [("inference", s.inferenceSection), ("log_level", level), ("log_file", file),
      ("structured_logging", structured)]) := by
    rw [datum?, hlevel, hfile, hstructured]
    rfl
  refine ⟨_, by rw [toContent, hdatum], hdatum, fun hd => ?_, fun hd => ?_⟩
  · simp [inferenceSection, hlevelKeys hd, hfileKeys hd, hstructuredKeys hd]
  · simp [inferenceSection, capKey, hlevelTexts hd, hfileTexts hd, hstructuredTexts hd]

/-! ### Files -/

/-- **What was saved is loaded**, if the text is ASCII and the format gives back what it was given, and no device is
there to lose it. -/
theorem loadFile_of_save {text : String} (htext : s.fileText libraries path = .ok text) (hlines : AreLines text.toList)
    (hcontent : contentOf libraries path text.toList = .ok s.toContent) (htruthy : s.toContent.truthy = true)
    (hsave : s.save libraries fs path = .ok fs') (hdevice : fs'.device? path.text = none) :
    loadFile libraries fs' path = .ok s := by
  obtain ⟨made, -, hsave⟩ := Files.bind_eq_ok hsave
  rw [htext] at hsave
  have hread := Files.read_of_write (Files.mapError_eq_ok_iff.1 hsave) hdevice
  rw [loadFile_of_text hlines hcontent htruthy hread, ofContent_toContent]
  rfl

theorem load_of_save (hd : d.KeysDistinct) (h : ofContent (.datum d) = .ok s)
    (hyaml : isYaml path = true → libraries.KeepsYaml s.toContent)
    (hjson : isYaml path = false → Json.UnpairedIn d) (hsave : s.save libraries fs path = .ok fs')
    (hdevice : fs'.device? path.text = none) : loadFile libraries fs' path = .ok s := by
  obtain ⟨written, hwritten, hdatum, hkeys, htexts⟩ := toContent_of_datum h
  have htruthy : s.toContent.truthy = true := by
    obtain ⟨_, _, _, -, -, -, heq⟩ | heq := s.toContent_cases
    · rw [heq]
      rfl
    · rw [heq]
      rfl
  cases hpath : isYaml path with
  | true =>
    have hkeeps := hyaml hpath
    have htext : s.fileText libraries path = .ok (libraries.writeYaml s.toContent) := by rw [fileText, if_pos hpath]
    refine loadFile_of_save htext hkeeps.ascii ?_ htruthy hsave hdevice
    rw [contentOf, if_pos hpath, hkeeps.reads]
    rfl
  | false =>
    have htext : s.fileText libraries path = .ok (Json.indented written) := by
      rw [fileText, hpath, hdatum]
      rfl
    refine loadFile_of_save htext ?_ ?_ htruthy hsave hdevice
    · rw [Json.indented, String.toList_ofList]
      exact Json.areLines_indentedText _ _
    · rw [hwritten]
      exact contentOf_of_json hpath (Json.read?_indented (hkeys hd) (htexts (hjson hpath)))

/-- **Settings that were read from plain data survive saving**, under every path where saving succeeds and which is no
device: they are loaded again from the file, if what is assumed of YAML holds where the suffix calls for it, and if no
text has the halves of a surrogate pair one behind the other where it calls for JSON.  They are read again from the map
that they are written as, and they have what the data gave. -/
theorem ofContent_survives (hd : d.KeysDistinct) (h : ofContent (.datum d) = .ok s) :
    (∀ (libraries : Libraries) (fs fs' : Files) (spelling : String), spelling ≠ "" →
      (isYaml (Path.ofString spelling) = true → libraries.KeepsYaml s.toContent) →
      (isYaml (Path.ofString spelling) = false → Json.UnpairedIn d) →
      s.save libraries fs (Path.ofString spelling) = .ok fs' → fs'.device? (Path.ofString spelling).text = none →
        load libraries fs' (some spelling) = .ok s) ∧
    ofContent s.toContent = .ok s ∧
    ∀ keys ∈ keyPaths, s.toContent.at? keys = ((Content.datum d).at? keys).or ((toContent {}).at? keys) := by
  refine ⟨fun libraries fs fs' spelling hspelling hyaml hjson hsave hdevice => ?_, ofContent_toContent s,
    fun keys => at?_toContent h⟩
  rw [load, if_neg hspelling]
  exact load_of_save hd h hyaml hjson hsave hdevice

/-- A configuration without a level, whose other settings are no texts or texts that YAML would take for others. -/
def quaint : Datum :=
  .map [("log_file", .text "é: 'x'\n"), ("inference", .map [("max_iterations", .int 3)]),
    ("structured_logging",
      .map [("yes", .list []), ("~", .list [.scalar (.real (.infinite true)), .null, .text "no"])])]

theorem keepsYaml_of_datum {written : Datum} (hascii : AreLines (Yaml.write (.datum written)).toList)
    (hread : (Yaml.read? (Yaml.write (.datum written)).toList).bind Content.datum? = some written) :
    Yaml.library.KeepsYaml (.datum written) where
  ascii := hascii
  reads := by
    obtain ⟨c, hc, hdatum⟩ := Option.bind_eq_some_iff.1 hread
    obtain rfl := datum?_eq_some_iff.1 hdatum
    simp only [Yaml.library, hc]

/-- It survives as YAML in a new directory, under a name that begins with a point, and as JSON where the suffix is
written in capitals. -/
theorem ofContent_survives_quaint :
    quaint.KeysDistinct ∧ ∃ s, ofContent (.datum quaint) = .ok s ∧
      s.toContent.at? ["log_level"] = some (.text "INFO") ∧
      (∃ fs, s.save Yaml.library {} (Path.ofString "logs/.chainlog.yaml") = .ok fs ∧
        load Yaml.library fs (some "logs/.chainlog.yaml") = .ok s) ∧
      ∃ fs, s.save Yaml.library {} (Path.ofString "chainlog.YAML") = .ok fs ∧
        load Yaml.library fs (some "chainlog.YAML") = .ok s := by
  have hd : quaint.KeysDistinct := by simp [quaint]
  have hunpaired : Json.UnpairedIn quaint := by simp [quaint]
  obtain ⟨s, h, ⟨fs', hfs', hdevice'⟩, written, heq, hascii, hread⟩ : ∃ s, ofContent (.datum quaint) = .ok s ∧
      (∃ fs, s.save Yaml.library {} (Path.ofString "chainlog.YAML") = .ok fs ∧
        fs.device? (Path.ofString "chainlog.YAML").text = none) ∧
      ∃ written, s.toContent = .datum written ∧ AreLines (Yaml.write (.datum written)).toList ∧
        (Yaml.read? (Yaml.write (.datum written)).toList).bind Content.datum? = some written :=
    ⟨_, rfl, ⟨_, rfl, by rfl⟩, _, rfl, by decide +kernel, by decide +kernel⟩
  have hyaml : Yaml.library.KeepsYaml s.toContent := heq ▸ keepsYaml_of_datum hascii hread
  obtain ⟨hsaving, -, hgiven⟩ := ofContent_survives hd h
  obtain ⟨fs, hfs, hdevice⟩ : ∃ fs, s.save Yaml.library {} (Path.ofString "logs/.chainlog.yaml") = .ok fs ∧
      fs.device? (Path.ofString "logs/.chainlog.yaml").text = none := ⟨_, rfl, by rfl⟩
  refine ⟨hd, s, h, ?_, ⟨fs, hfs, ?_⟩, ⟨fs', hfs', ?_⟩⟩
  · rw [hgiven _ (by simp [keyPaths])]
    rfl
  · exact hsaving Yaml.library {} fs _ (by decide) (fun _ => hyaml) (fun hpath => absurd hpath (by decide)) hfs hdevice
  · exact hsaving Yaml.library {} fs' _ (by decide) (fun hpath => absurd hpath (by decide)) (fun _ => hunpaired) hfs'
      hdevice'

def sinkFiles : Files := { items := [(["dev"], .directory), (["dev", "null"], .device .sink)] }

/-- The standard settings, which are those of a configuration that gives none, do not survive saving to a device: there
is nothing to be loaded. -/
theorem lost_in_sink : ofContent (.datum (.map [])) = .ok {} ∧ ∀ libraries : Libraries,
    save {} libraries sinkFiles (Path.ofString "/dev/null") = .ok sinkFiles ∧
      load libraries sinkFiles (some "/dev/null") = .error (.json []) :=
  ⟨rfl, fun _ => ⟨rfl, rfl⟩⟩

end Settings

end ForwardChaining
