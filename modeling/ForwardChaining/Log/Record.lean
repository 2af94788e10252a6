import ForwardChaining.Datum
import ForwardChaining.Log.Level

/-!
# Log records

A log record is a message from a named logger, with a level and with fields for those who read logs by
program. The value of a field is plain data in which terms and other things may stand at any depth; wherever
records are written each of these is replaced by its display.
-/

namespace ForwardChaining

/-- The value of a field: plain data, a term, another thing, or a list or map of such values. -/
inductive FieldValue where
  | datum (d : Datum)
  | term (t : Term)
  /-- A thing that is known by its display and by what a message shows for it, as a term with surrogates is. -/
  | other (display : CodeText) (shown : String)
  | list (items : List FieldValue)
  | map (entries : List (CodeText × FieldValue))

namespace FieldValue

instance : Inhabited FieldValue := ⟨.datum default⟩

mutual
/-- The value with every term and every other thing replaced by its display. -/
def plain : FieldValue → Datum
  | .datum d => d
  | .term t => .text t.display
  | .other display _ => .text display
  | .list items => .list (plainAll items)
  | .map entries => .map (plainEntries entries)

/-- The values, likewise. -/
def plainAll : List FieldValue → List Datum
  | [] => []
  | x :: xs => x.plain :: plainAll xs

/-- The entries, likewise. -/
def plainEntries : List (CodeText × FieldValue) → List (CodeText × Datum)
  | [] => []
  | (key, x) :: rest => (key, x.plain) :: plainEntries rest
end

end FieldValue

/-- A message from a logger. -/
structure Record where
  level : Level
  logger : CodeText
  message : CodeText
  fields : List (CodeText × FieldValue) := []

end ForwardChaining
