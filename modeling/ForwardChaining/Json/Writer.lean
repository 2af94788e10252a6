import ForwardChaining.Datum
import ForwardChaining.Json.Quoted

/-!
# Writing JSON

Plain data is written in one of two layouts, with nothing but printable ASCII. The plain one stands on a
single line, with a blank behind every comma and colon. The indented one gives every item and every entry a
line of its own.

Numbers without a finite value have no form in JSON proper, and are written by name.
-/

namespace ForwardChaining.Json

/-- The texts with a separator between neighbours. -/
def joined (separator : List Char) : List (List Char) → List Char
  | [] => []
  | [item] => item
  | item :: next :: rest => item ++ separator ++ joined separator (next :: rest)

/-- The form of a binary64 number. -/
def realText (x : Binary64) : List Char :=
  match x with
  | .nan => "NaN".toList
  | .infinite negative => if negative then "-Infinity".toList else "Infinity".toList
  | x => x.text.toList

/-- The form of a scalar. -/
def scalarText : Scalar → List Char
  | .text s => quoted s
  | .int n => (toString n).toList
  | .real x => realText x
  | .bool b => if b then "true".toList else "false".toList
  | .null => "null".toList

mutual
/-- The plain form. -/
def plainText : Datum → List Char
  | .scalar v => scalarText v
  | .list items => '[' :: joined [',', ' '] (plainItems items) ++ [']']
  | .map entries => '\x7b' :: joined [',', ' '] (plainEntries entries) ++ ['\x7d']

/-- The plain forms of a list of data. -/
def plainItems : List Datum → List (List Char)
  | [] => []
  | d :: ds => plainText d :: plainItems ds

/-- The plain forms of the entries of a map. -/
def plainEntries : List (CodeText × Datum) → List (List Char)
  | [] => []
  | (key, d) :: rest => (quoted key ++ [':', ' '] ++ plainText d) :: plainEntries rest
end

/-- The beginning of a line at a depth, two blanks for each level. -/
def margin (depth : Nat) : List Char := '\n' :: List.replicate (2 * depth) ' '

/-- Forms on lines of their own between two brackets, or the bare brackets if there is none. -/
def stacked (opening closing : Char) (depth : Nat) (items : List (List Char)) : List Char :=
  if items.isEmpty then [opening, closing]
  else opening :: margin (depth + 1) ++ joined (',' :: margin (depth + 1)) items ++ margin depth ++ [closing]

mutual
/-- The indented form, at a depth. -/
def indentedText (depth : Nat) : Datum → List Char
  | .scalar v => scalarText v
  | .list items => stacked '[' ']' depth (indentedItems (depth + 1) items)
  | .map entries => stacked '\x7b' '\x7d' depth (indentedEntries (depth + 1) entries)

/-- The indented forms of a list of data. -/
def indentedItems (depth : Nat) : List Datum → List (List Char)
  | [] => []
  | d :: ds => indentedText depth d :: indentedItems depth ds

/-- The indented forms of the entries of a map. -/
def indentedEntries (depth : Nat) : List (CodeText × Datum) → List (List Char)
  | [] => []
  | (key, d) :: rest =>
    (quoted key ++ [':', ' '] ++ indentedText depth d) :: indentedEntries depth rest
end

/-- The datum on a single line of printable ASCII. -/
def plain (d : Datum) : String := String.ofList (plainText d)

/-- The datum with every item and entry on a line of its own. -/
def indented (d : Datum) : String := String.ofList (indentedText 0 d)

end ForwardChaining.Json
