import ForwardChaining.Cap

/-!
# Settings

What a configuration sets: the cap on passes, how urgent a record must be to be logged, whether logs go to
a file as well, and whether they are written for programs. Only the cap is checked where settings are
read; the others are kept as they were given, and checked where they are used.

Entries that are no settings are ignored, but not within the inference section. What is no map is refused
unless it has nothing to do with settings: a list, a set or a text that does not contain the name of one.
-/

namespace ForwardChaining

/-- What a configuration sets. -/
structure Settings where
  cap : Cap := .standard
  logLevel : Content := .text "INFO"
  logFile : Content := .datum .null
  structuredLogging : Content := .datum (.bool false)

/-- Why no settings can be read from something. -/
inductive SettingsError where
  /-- What is read, or its inference section, has the wrong shape. -/
  | shape (got : Content)
  | cap (e : CapError)

namespace Settings

/-- Whether a text is part of another one. -/
def isPart (part : CodeText) : CodeText → Bool
  | [] => part = []
  | c :: rest => part.isPrefixOf (c :: rest) || isPart part rest

/-- Whether a key is found in something, if it can be looked for: in a map as a key, in a list or a set as
an item, in a text as a part. -/
def mentions? (c : Content) (key : CodeText) : Option Bool :=
  match c with
  | .datum (.map entries) => some (entries.any fun e => e.1 = key)
  | .datum (.list items) => some (items.any fun
    | .scalar (.text s) => s = key
    | _ => false)
  | .datum (.scalar (.text s)) => some (isPart key s)
  | .datum _ => none
  | .thing t => t.texts.map fun texts => texts.any fun text => text = key
  | .map entries => some (entries.any fun e => e.1 = .text key)

/-- The value under a key, nothing if the key is not found. Only a map has values. -/
def entry (c : Content) (key : CodeText) : Except SettingsError (Option Content) :=
  match mentions? c key with
  | none => .error (.shape c)
  | some false => .ok none
  | some true =>
    match c with
    | .datum (.map entries) => .ok ((Datum.lookup? entries key).map .datum)
    | .map entries => .ok (entries.lookup (.text key))
    | _ => .error (.shape c)

/-- The name of the setting in an inference section. -/
def capKey : CodeText := "max_iterations"

/-- The cap of an inference section, which may set nothing else. -/
def capOfSection (c : Content) : Except SettingsError Cap :=
  match c with
  | .datum (.map entries) =>
    if entries.any fun e => e.1 ≠ capKey then .error (.shape c)
    else match Datum.lookup? entries capKey with
      | none => .ok .standard
      | some d => (Cap.ofContent (.datum d)).mapError .cap
  | .map entries =>
    if entries.any fun e => e.1 ≠ .text capKey then .error (.shape c)
    else match entries.lookup (.text capKey) with
      | none => .ok .standard
      | some given => (Cap.ofContent given).mapError .cap
  | _ => .error (.shape c)

/-- The cap that something gives in an inference section, if it has one. -/
def capOf (c : Content) : Except SettingsError Cap :=
  (entry c "inference").bind fun
    | none => .ok .standard
    | some inference => capOfSection inference

/-- The settings that something gives. -/
def ofContent (c : Content) : Except SettingsError Settings := do
  let standard : Settings := {}
  let cap ← capOf c
  let logLevel ← entry c "log_level"
  let logFile ← entry c "log_file"
  let structuredLogging ← entry c "structured_logging"
  return { cap
           logLevel := logLevel.getD standard.logLevel
           logFile := logFile.getD standard.logFile
           structuredLogging := structuredLogging.getD standard.structuredLogging }

/-- The inference section of settings. -/
def inferenceSection (s : Settings) : Datum := .map [(capKey, .int s.cap.val)]

/-- Settings as plain data, if they are. -/
def datum? (s : Settings) : Option Datum := do
  let logLevel ← s.logLevel.datum?
  let logFile ← s.logFile.datum?
  let structuredLogging ← s.structuredLogging.datum?
  return .map [("inference", s.inferenceSection), ("log_level", logLevel), ("log_file", logFile),
    ("structured_logging", structuredLogging)]

/-- Settings as a map of their entries. -/
def toContent (s : Settings) : Content :=
  match s.datum? with
  | some d => .datum d
  | none => .map [(.text "inference", .datum s.inferenceSection), (.text "log_level", s.logLevel),
    (.text "log_file", s.logFile), (.text "structured_logging", s.structuredLogging)]

end Settings

end ForwardChaining
