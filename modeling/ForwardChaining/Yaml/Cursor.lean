/-!
# Places in a document

Indentation carries meaning in YAML, so that a place in a document is more than the text that is left:
it has a line and a column. A cursor holds both. The end of the document is seen as the absence of a
next character.
-/

namespace ForwardChaining.Yaml

/-- Whether a character ends a line. -/
def isBreak (c : Char) : Bool :=
  c = '\n' || c = '\r' || c = '\u0085' || c = '\u2028' || c = '\u2029'

/-- Whether a character is a blank or ends a line. -/
def isGap (c : Char) : Bool := c = ' ' || c = '\t' || isBreak c

/-- Whether a document may hold a character: the controls but for the tab, the line ends and the next-line
control are barred, and so are the two noncharacters that end the first plane. -/
def isAdmitted (c : Char) : Bool :=
  c = '\t' || c = '\n' || c = '\r' || c = '\u0085'
    || (0x20 ≤ c.toNat && c.toNat ≤ 0x7E) || (0xA0 ≤ c.toNat && c.toNat ≤ 0xFFFD) || 0x10000 ≤ c.toNat

/-- A place in a document, with the text from there on. Counts start at zero. -/
structure Cursor where
  rest : List Char
  index : Nat := 0
  line : Nat := 0
  column : Nat := 0

namespace Cursor

/-- The next character. -/
def peek? (c : Cursor) : Option Char := c.rest.head?

/-- Whether the next character is `x`. -/
def sees (c : Cursor) (x : Char) : Bool := c.rest.head? = some x

/-- Whether the place `n` characters on is the end or holds a character of a class. -/
def endsAt (c : Cursor) (n : Nat) (p : Char → Bool) : Bool :=
  match c.rest[n]? with
  | none => true
  | some x => p x

/-- The place behind the next character. A carriage return before a line feed ends no line by itself,
and a byte order mark takes no column. -/
def next (c : Cursor) : Cursor :=
  match c.rest with
  | [] => c
  | x :: rest =>
    if isBreak x && !(x = '\r' && rest.head? = some '\n') then
      { rest, index := c.index + 1, line := c.line + 1, column := 0 }
    else
      { rest, index := c.index + 1, line := c.line
        column := if x = '\uFEFF' then c.column else c.column + 1 }

/-- The place `n` characters on. -/
def skip (c : Cursor) : Nat → Cursor
  | 0 => c
  | n + 1 => c.next.skip n

/-- The characters of a class that come next, and the place behind them. -/
def span (c : Cursor) (p : Char → Bool) : List Char × Cursor :=
  let run := c.rest.takeWhile p
  (run, c.skip run.length)

/-- The place behind the characters of a class that come next. -/
def skipWhile (c : Cursor) (p : Char → Bool) : Cursor := (c.span p).2

/-- A line end as it counts in a scalar, if one comes next: all but the two separators are line feeds. -/
def lineBreak? (c : Cursor) : Option (Char × Cursor) :=
  match c.rest with
  | '\r' :: '\n' :: _ => some ('\n', c.skip 2)
  | x :: _ =>
    if !isBreak x then none
    else some (if x = '\u2028' || x = '\u2029' then x else '\n', c.next)
  | [] => none

/-- Whether a line that separates documents begins here: three times the same mark and a gap. -/
def seesSeparator (c : Cursor) (mark : Char) : Bool :=
  [mark, mark, mark].isPrefixOf c.rest && c.endsAt 3 isGap

/-- Whether a line that starts or ends a document begins here. -/
def seesDocumentEdge (c : Cursor) : Bool := c.seesSeparator '-' || c.seesSeparator '.'

end Cursor

end ForwardChaining.Yaml
