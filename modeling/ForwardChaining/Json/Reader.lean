import ForwardChaining.Datum
import ForwardChaining.Json.Quoted
import ForwardChaining.Number.Numeral

/-!
# Reading JSON

A text is read as plain data if all of it is one JSON value, with blanks around it. Where an object gives
a key twice the later value counts. The names of the numbers without a finite value are read as well.

A value is read by descent, and each step of the descent has a character of its own to pay for, so that
twice the length of the text bounds their number.
-/

namespace ForwardChaining.Json

/-- Whether a character may stand between the parts of a value. -/
def isGap (c : Char) : Bool := c = ' ' || c = '\t' || c = '\n' || c = '\r'

/-- The text without the gap at its beginning. -/
def skipGap (cs : List Char) : List Char := cs.dropWhile isGap

/-- The words for values. -/
def words : List (List Char × Scalar) :=
  [("null".toList, .null), ("true".toList, .bool true), ("false".toList, .bool false),
   ("NaN".toList, .real .nan), ("Infinity".toList, .real (.infinite false)),
   ("-Infinity".toList, .real (.infinite true))]

/-- The value that a word at the beginning of a text stands for, and the rest. -/
def word? (cs : List Char) : Option (Scalar × List Char) :=
  words.findSome? fun (word, v) => if word.isPrefixOf cs then some (v, cs.drop word.length) else none

/-- The scalar at the beginning of a text, and the rest. -/
def scalar? : List Char → Option (Scalar × List Char)
  | '"' :: rest => (unquote? rest).map fun (s, rest) => (.text s, rest)
  | cs => (word? cs).orElse fun _ => (numeral? cs).map fun (v, rest) => (.ofValue v, rest)

/-- The entries of a map when they come in order, a key that comes again taking its latest value. -/
def entriesOf (entries : List (CodeText × Datum)) : List (CodeText × Datum) :=
  entries.foldl (fun found (key, d) => Datum.put found key d) []

mutual
/-- The value at the beginning of a text, and the rest. -/
def value? : Nat → List Char → Option (Datum × List Char)
  | 0, _ => none
  | fuel + 1, '[' :: rest =>
    match skipGap rest with
    | ']' :: rest => some (.list [], rest)
    | rest => (items? fuel rest).map fun (items, rest) => (.list items, rest)
  | fuel + 1, '\x7b' :: rest =>
    match skipGap rest with
    | '\x7d' :: rest => some (.map [], rest)
    | rest => (entries? fuel rest).map fun (entries, rest) => (.map (entriesOf entries), rest)
  | _ + 1, cs => (scalar? cs).map fun (v, rest) => (.scalar v, rest)

/-- The items up to the closing bracket, at least one, and the rest. -/
def items? : Nat → List Char → Option (List Datum × List Char)
  | 0, _ => none
  | fuel + 1, cs =>
    match value? fuel cs with
    | none => none
    | some (d, rest) =>
      match skipGap rest with
      | ',' :: rest => (items? fuel (skipGap rest)).map fun (items, rest) => (d :: items, rest)
      | ']' :: rest => some ([d], rest)
      | _ => none

/-- The entries up to the closing brace, at least one, and the rest. -/
def entries? : Nat → List Char → Option (List (CodeText × Datum) × List Char)
  | 0, _ => none
  | fuel + 1, '"' :: cs =>
    match unquote? cs with
    | none => none
    | some (key, rest) =>
      match skipGap rest with
      | ':' :: rest =>
        match value? fuel (skipGap rest) with
        | none => none
        | some (d, rest) =>
          match skipGap rest with
          | ',' :: rest =>
            (entries? fuel (skipGap rest)).map fun (entries, rest) => ((key, d) :: entries, rest)
          | '\x7d' :: rest => some ([(key, d)], rest)
          | _ => none
      | _ => none
  | _ + 1, _ => none
end

/-- The datum that a text holds. -/
def read? (cs : List Char) : Option Datum :=
  match value? (2 * cs.length + 2) (skipGap cs) with
  | some (d, rest) => if skipGap rest = [] then some d else none
  | none => none

end ForwardChaining.Json
