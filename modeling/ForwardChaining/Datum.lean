import ForwardChaining.Term.Display
import ForwardChaining.Text.CodePoint
import ForwardChaining.Value

/-!
# Plain data

A configuration file and the fields of a log record hold plain data: scalars, which are the values that
constants have too except that their texts may hold surrogates, and lists and text-keyed maps of plain
data. A map lists its entries in order of first arrival of their keys.
-/

namespace ForwardChaining

/-- A text, a number, a truth value or nothing. -/
inductive Scalar where
  | text (s : CodeText)
  | int (n : Int)
  | real (x : Binary64)
  | bool (b : Bool)
  | null

namespace Scalar

/-- The scalar of a value. -/
def ofValue : Value → Scalar
  | .text s => text s
  | .int n => int n
  | .real x => real x
  | .bool b => bool b
  | .null => null

/-- The text that a scalar is displayed by: a text stands for itself, without quotes. -/
def display : Scalar → CodeText
  | text s => s
  | int n => Value.display (.int n)
  | real x => Value.display (.real x)
  | bool b => Value.display (.bool b)
  | null => Value.display .null

/-- The text that a message shows for a scalar: as displayed, a text between quotes. -/
def shown : Scalar → String
  | text s => Text.quoteCodes s
  | int n => Value.shown (.int n)
  | real x => Value.shown (.real x)
  | bool b => Value.shown (.bool b)
  | null => Value.shown .null

end Scalar

/-- A scalar, a list or a map of plain data. -/
inductive Datum where
  | scalar (v : Scalar)
  | list (items : List Datum)
  | map (entries : List (CodeText × Datum))

namespace Datum

instance : Inhabited Datum := ⟨.scalar .null⟩

/-- A text. -/
abbrev text (s : CodeText) : Datum := .scalar (.text s)

/-- An integer. -/
abbrev int (n : Int) : Datum := .scalar (.int n)

/-- A truth value. -/
abbrev bool (b : Bool) : Datum := .scalar (.bool b)

/-- Nothing. -/
abbrev null : Datum := .scalar .null

/-- The value under a key of a map's entries. -/
def lookup? (entries : List (CodeText × Datum)) (key : CodeText) : Option Datum := entries.lookup key

/-- The entries with a value put under a key: a new key goes to the end, a key that is there keeps its
place. -/
def put (entries : List (CodeText × Datum)) (key : CodeText) (d : Datum) : List (CodeText × Datum) :=
  if entries.any fun e => e.1 = key then entries.map fun e => if e.1 = key then (key, d) else e
  else entries ++ [(key, d)]

/-- Whether a datum counts as a yes: nothing, false, zero and whatever is empty count as a no. -/
def truthy : Datum → Bool
  | .scalar (.text s) => s ≠ []
  | .scalar (.int n) => n ≠ 0
  | .scalar (.real x) => !x.isZero
  | .scalar (.bool b) => b
  | .scalar .null => false
  | .list items => !items.isEmpty
  | .map entries => !entries.isEmpty

mutual
/-- The text that a message shows for a datum, texts between quotes. -/
def shown : Datum → String
  | .scalar v => v.shown
  | .list items => "[" ++ commaSeparated (shownAll items) ++ "]"
  | .map entries => "\x7b" ++ commaSeparated (shownEntries entries) ++ "\x7d"

/-- The texts that a message shows for a list of data. -/
def shownAll : List Datum → List String
  | [] => []
  | d :: ds => d.shown :: shownAll ds

/-- The texts that a message shows for the entries of a map. -/
def shownEntries : List (CodeText × Datum) → List String
  | [] => []
  | (key, d) :: rest => (Text.quoteCodes key ++ ": " ++ d.shown) :: shownEntries rest
end

end Datum

end ForwardChaining
