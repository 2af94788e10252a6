import ForwardChaining.Content
import ForwardChaining.Yaml.Cursor
import ForwardChaining.Yaml.Implicit

/-!
# Writing YAML

A map is written as a block, every entry on a line of its own and every level two columns to the right
of the one above it, except that the items of a list stand in the column of the key they belong to.
Empty collections are written as brackets.

A text is written plainly if it reads back as itself, between single quotes if that is enough, and
between double quotes, in ASCII, otherwise. Where a line has grown beyond 80 columns a text goes on on
the next line after a blank, or, between double quotes, after a backslash.
-/

namespace ForwardChaining.Yaml

/-- How a text can be written. -/
inductive Quoting where
  | plain
  | single
  | double
deriving DecidableEq

/-- The column behind which a text goes on on the next line. -/
def wrapColumn : Nat := 80

/-- Whether a character can be written without an escape. -/
def isDirect (c : Char) : Bool := 0x20 ≤ c.toNat && c.toNat ≤ 0x7E

/-- Whether a character of one class stands directly before one of another. -/
def hasPair (p : Char → Bool) (q : Char → Bool) : List Char → Bool
  | c :: d :: rest => p c && q d || hasPair p q (d :: rest)
  | _ => false

/-- Whether a colon stands before a gap or at the end. -/
def hasOpenColon : List Char → Bool
  | [] => false
  | [c] => c = ':'
  | c :: d :: rest => c = ':' && isGap d || hasOpenColon (d :: rest)

/-- Whether a text, plainly written in a block, would be taken for something else by its marks. -/
def hasMarks (cs : List Char) : Bool :=
  match cs with
  | [] => false
  | first :: rest =>
    ['-', '-', '-'].isPrefixOf cs || ['.', '.', '.'].isPrefixOf cs
      || first ∈ ['#', ',', '[', ']', '\x7b', '\x7d', '&', '*', '!', '|', '>', '\'', '"', '%', '@', '\x60']
      || first ∈ ['?', ':', '-'] && rest.head?.all isGap
      || hasOpenColon cs
      || hasPair isGap (· = '#') cs

/-- How characters are written, as a key or as anything else. -/
def quotingOfCharacters (asKey : Bool) (cs : List Char) : Quoting :=
  let isText := match Plain.of (String.ofList cs) with
    | .value (.text _) => true
    | _ => false
  let blankAtEnd := cs.head? = some ' ' || cs.getLast? = some ' '
  let lines := '\n' ∈ cs
  let lineAtEnd := cs.head? = some '\n' || cs.getLast? = some '\n'
  let blankAtLine := hasPair (· = '\n') (· = ' ') cs || hasPair (· = ' ') (· = '\n') cs
  let special := cs.any fun c => !(c = '\n' || isDirect c)
  if isText && !special && !lines && !blankAtEnd && !lineAtEnd && !hasMarks cs then .plain
  else if special || blankAtLine || asKey && lines then .double
  else .single

/-- How a text is written, with its characters if it has no surrogates. -/
def quotingOf (asKey : Bool) (s : CodeText) : Quoting × List Char :=
  match Text.characters? s with
  | some cs => (quotingOfCharacters asKey cs, cs)
  | none => (.double, [])

/-- A new line with blanks up to a column. -/
def newLine (column : Nat) : List Char := '\n' :: List.replicate column ' '

/-- The maximal runs of characters of one class: blanks, line ends, others. -/
def runs : List Char → List (List Char)
  | [] => []
  | c :: rest =>
    let kind (x : Char) : Nat := if x = ' ' then 0 else if x = '\n' then 1 else 2
    match runs rest with
    | [] => [[c]]
    | [] :: more => [c] :: more
    | (d :: run) :: more => if kind c = kind d then (c :: d :: run) :: more else [c] :: (d :: run) :: more

/-- The runs of a text one after the other, the first of them in the given column. A single blank behind
the last column gives way to a new line, unless it stands first or last. -/
def wrapped (indent : Nat) (isFirst : Bool) (column : Nat) : List (List Char) → List Char
  | [] => []
  | run :: rest =>
    if run = [' '] && column > wrapColumn && !isFirst && !rest.isEmpty then
      newLine indent ++ wrapped indent false indent rest
    else if run.head? = some '\n' then
      '\n' :: List.replicate (run.length - 1) '\n' ++ newLine indent ++ wrapped indent false indent rest
    else run ++ wrapped indent false (column + run.length) rest

/-- A text between single quotes: a quote is written twice. -/
def singleQuoted (indent column : Nat) (cs : List Char) : List Char :=
  let doubled := cs.flatMap fun c => if c = '\'' then ['\'', '\''] else [c]
  '\'' :: wrapped indent true (column + 1) (runs doubled) ++ ['\'']

/-- Escape letters, by the characters that they stand for. -/
def letters : List (Char × Char) :=
  [('\x00', '0'), ('\x07', 'a'), ('\x08', 'b'), ('\t', 't'), ('\n', 'n'), ('\x0b', 'v'), ('\x0c', 'f'),
   ('\r', 'r'), ('\x1b', 'e'), ('"', '"'), ('\\', '\\'), ('\u0085', 'N'), ('\u00a0', '_'),
   ('\u2028', 'L'), ('\u2029', 'P')]

/-- The last hexadecimal figures of a number, in capitals. -/
def capitalFigures (width n : Nat) : List Char := (Text.hexFigures width n).map Char.toUpper

/-- How a code point stands between double quotes: as a character by itself, or as an escape. -/
def spelling : CodePoint → Char ⊕ List Char
  | .surrogate n => .inr ('\\' :: 'u' :: capitalFigures 4 (CodePoint.surrogate n).toNat)
  | .char c =>
    match letters.lookup c with
    | some letter => .inr ['\\', letter]
    | none =>
      if isDirect c then .inl c
      else if c.toNat < 0x100 then .inr ('\\' :: 'x' :: capitalFigures 2 c.toNat)
      else if c.toNat < 0x10000 then .inr ('\\' :: 'u' :: capitalFigures 4 c.toNat)
      else .inr ('\\' :: 'U' :: capitalFigures 8 c.toNat)

/-- What is left of a text between double quotes, at a column, the characters of `held` still to be
written. Behind the last column a line ends before a blank or behind an escape, with a backslash; a blank
that begins the next line is written with one, too. -/
def doubleWrapped (wraps : Bool) (indent : Nat) (isFirst : Bool) (column : Nat) (held : List Char) :
    CodeText → List Char
  | [] => held
  | c :: rest =>
    let mayWrap := wraps && !isFirst && !rest.isEmpty
    match spelling c with
    | .inr escape =>
      let column := column + held.length + escape.length
      if mayWrap && column > wrapColumn + 1 then
        let slash := if rest.head? = some (.char ' ') then ['\\'] else []
        held ++ escape ++ '\\' :: newLine indent ++ slash
          ++ doubleWrapped wraps indent false (indent + slash.length) [] rest
      else held ++ escape ++ doubleWrapped wraps indent false column [] rest
    | .inl c =>
      if mayWrap && (c = ' ' || held = []) && column + held.length > wrapColumn then
        let slash := if c = ' ' then ['\\'] else []
        held ++ '\\' :: newLine indent ++ slash
          ++ doubleWrapped wraps indent false (indent + slash.length) [c] rest
      else doubleWrapped wraps indent false column (held ++ [c]) rest

/-- A text between double quotes. -/
def doubleQuoted (wraps : Bool) (indent column : Nat) (s : CodeText) : List Char :=
  '"' :: doubleWrapped wraps indent true (column + 1) [] s ++ ['"']

/-- The form of a number: one without a point gets one before its exponent. -/
def realText (x : Binary64) : List Char :=
  match x with
  | .nan => ".nan".toList
  | .infinite negative => if negative then "-.inf".toList else ".inf".toList
  | x =>
    let cs := x.text.toList
    if '.' ∈ cs then cs
    else cs.takeWhile (· ≠ 'e') ++ (if 'e' ∈ cs then ['.', '0'] else []) ++ cs.dropWhile (· ≠ 'e')

/-- A text that is no key, its first character in the given column. -/
def textText (indent column : Nat) (s : CodeText) : List Char :=
  match quotingOf false s with
  | (.plain, cs) => wrapped indent true column (runs cs)
  | (.single, cs) => singleQuoted indent column cs
  | (.double, _) => doubleQuoted true indent column s

/-- A scalar that is no key, its first character in the given column. -/
def scalarText (indent column : Nat) : Scalar → List Char
  | .text s => textText indent column s
  | .int n => (toString n).toList
  | .real x => realText x
  | .bool b => if b then "true".toList else "false".toList
  | .null => "null".toList

/-- A key on one line. -/
def keyText (s : CodeText) : List Char :=
  match quotingOf true s with
  | (.plain, cs) => cs
  | (.single, cs) => '\'' :: (cs.flatMap fun c => if c = '\'' then ['\'', '\''] else [c]) ++ ['\'']
  | (.double, _) => doubleQuoted false 0 0 s

/-- Whether a code point ends a line where a text is looked at for lines. -/
def isLineEnd : CodePoint → Bool
  | .char c => isBreak c && c ≠ '\r'
  | .surrogate _ => false

/-- Whether a key can stand on one line before a colon. -/
def isShortKey (s : CodeText) : Bool := s ≠ [] && !s.any isLineEnd && s.length < 123

mutual
/-- A datum behind a dash, a question mark or a colon at the given column, on the same line. -/
def besideMark (column : Nat) : Datum → List Char
  | .scalar v => ' ' :: scalarText (column + 2) (column + 2) v
  | .list [] => " []".toList
  | .map [] => " \x7b\x7d".toList
  | .list items => ' ' :: listText (column + 2) true items
  | .map entries => ' ' :: mapText (column + 2) true entries

/-- A datum behind the colon of a key, where the key's column and the colon's are given. -/
def behindKey (column colon : Nat) : Datum → List Char
  | .scalar v => ' ' :: scalarText (column + 2) (colon + 2) v
  | .list [] => " []".toList
  | .map [] => " \x7b\x7d".toList
  | .list items => listText column false items
  | .map entries => mapText (column + 2) false entries

/-- The items of a list in a column, the first of them on the present line or on a new one. -/
def listText (column : Nat) (onLine : Bool) : List Datum → List Char
  | [] => []
  | d :: ds =>
    (if onLine then [] else newLine column) ++ '-' :: besideMark column d ++ listText column false ds

/-- The entries of a map in a column, the first of them on the present line or on a new one. -/
def mapText (column : Nat) (onLine : Bool) : List (CodeText × Datum) → List Char
  | [] => []
  | (key, d) :: rest =>
    (if onLine then [] else newLine column)
      ++ (if isShortKey key then
          let key := keyText key
          key ++ ':' :: behindKey column (column + key.length) d
        else
          '?' :: ' ' :: textText (column + 2) (column + 2) key
            ++ newLine column ++ ':' :: besideMark column d)
      ++ mapText column false rest
end

/-- Plain data with whatever is none in it replaced by the text that it is shown by. -/
def plainly : Content → Datum
  | .datum d => d
  | .thing t => .text t.shown
  | .map entries => .map (plainEntries entries)
where
  /-- The entries of a map, likewise. -/
  plainEntries : List (Key × Content) → List (CodeText × Datum)
    | [] => []
    | (.text key, c) :: rest => (key, plainly c) :: plainEntries rest
    | (.other key, c) :: rest => (Text.codes key, plainly c) :: plainEntries rest

/-- A map as a document. -/
def writeMap (entries : List (CodeText × Datum)) : String :=
  if entries.isEmpty then "\x7b\x7d\n" else String.ofList (mapText 0 true entries ++ ['\n'])

/-- Something as a document. -/
def write (c : Content) : String :=
  match plainly c with
  | .map entries => writeMap entries
  | d => String.ofList ((besideMark 0 d).drop 1 ++ ['\n'])

end ForwardChaining.Yaml
