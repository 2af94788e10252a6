import ForwardChaining.Datum

/-!
# What settings are read from

A JSON text holds plain data. A YAML text may hold other things as well: bytes, dates, sets, lists that hold
themselves, and maps some of whose keys are no texts. Such a thing is known here by what the program sees of it
when it takes it for settings.
-/

namespace ForwardChaining

/-- A thing that is neither plain data nor a map. -/
structure Thing where
  /-- Whether it counts as a yes. -/
  truthy : Bool
  /-- The text that a message shows for it. -/
  shown : String
  /-- The texts that are found in it, unless nothing can be looked for in it. -/
  texts : Option (List CodeText)

/-- The key of an entry: a text, or something else of which a message shows a text. -/
inductive Key where
  | text (s : CodeText)
  | other (shown : String)
deriving DecidableEq

/-- Plain data, another thing, or a map with such things in it. -/
inductive Content where
  | datum (d : Datum)
  | thing (t : Thing)
  | map (entries : List (Key × Content))

namespace Content

instance : Inhabited Content := ⟨.datum .null⟩

/-- A text. -/
abbrev text (s : CodeText) : Content := .datum (.text s)

/-- Whether something counts as a yes. -/
def truthy : Content → Bool
  | .datum d => d.truthy
  | .thing t => t.truthy
  | .map entries => !entries.isEmpty

/-- The text that a key is shown by. -/
def keyShown : Key → String
  | .text s => Text.quoteCodes s
  | .other shown => shown

mutual
/-- The text that a message shows for something. -/
def shown : Content → String
  | .datum d => d.shown
  | .thing t => t.shown
  | .map entries => "\x7b" ++ commaSeparated (shownEntries entries) ++ "\x7d"

/-- The texts that a message shows for the entries of a map. -/
def shownEntries : List (Key × Content) → List String
  | [] => []
  | (key, c) :: rest => (keyShown key ++ ": " ++ c.shown) :: shownEntries rest
end

/-- The plain datum that something is. -/
def datum? : Content → Option Datum
  | .datum d => some d
  | _ => none

end Content

end ForwardChaining
