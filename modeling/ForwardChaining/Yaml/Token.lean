import ForwardChaining.Yaml.Scalar

/-!
# Tokens of a document

A document is a sequence of tokens: scalars, the marks that stand in it, and the beginnings and ends of
block collections, which are seen from the indentation alone. A block collection begins where a column
to the right of the enclosing one is reached by an item mark or a key, and ends where the column is left.

A colon makes a key of what stands before it on its line. Where a key may stand the place of the last
token is therefore kept as a candidate, and when the colon comes a key token is put in front of it. A
candidate that the indentation demands to be a key must become one.
-/

namespace ForwardChaining.Yaml

/-- A token. -/
inductive Token where
  | blockList
  | blockMap
  | blockEnd
  | item
  | key
  | value
  | flowList
  | flowListEnd
  | flowMap
  | flowMapEnd
  | comma
  | scalar (plain : Bool) (text : CodeText)
  | anchor (name : String)
  | reference (name : String)
  /-- A tag is given by a handle and a rest, or as a whole. -/
  | tag (handle : Option String) (rest : String)
  /-- A directive; one about tags abbreviates the beginning of tags by a handle. -/
  | directive (handle : Option (String × String)) (isVersion : Bool)
  | documentStart
  | documentEnd
deriving DecidableEq

/-- A token that a colon may still make a key of. -/
structure Candidate where
  /-- The number of tokens before it. -/
  position : Nat
  required : Bool
  start : Cursor

/-- The state between two tokens. -/
structure Scan where
  cursor : Cursor
  tokens : Array Token := #[]
  /-- The number of brackets that are open. -/
  depth : Int := 0
  /-- The column of the innermost block collection, and those of the others. -/
  indent : Int := -1
  outer : List Int := []
  keyAllowed : Bool := true
  /-- The candidates, at most one for each number of open brackets. -/
  candidates : List (Int × Candidate) := []

namespace Scan

/-- Whether the place is between brackets. -/
def inFlow (s : Scan) : Bool := s.depth ≠ 0

/-- The state with a token added. -/
def push (s : Scan) (t : Token) : Scan := { s with tokens := s.tokens.push t }

/-- The state with a token added and `n` characters passed. -/
def pass (s : Scan) (t : Token) (n : Nat) : Scan := { s.push t with cursor := s.cursor.skip n }

/-- Drop the candidate of the present depth, which must not be required. -/
def dropCandidate (s : Scan) : Option Scan :=
  match s.candidates.lookup s.depth with
  | none => some s
  | some candidate =>
    if candidate.required then none
    else some { s with candidates := s.candidates.filter fun entry => entry.1 ≠ s.depth }

/-- Drop the candidates that can no longer become keys, which must not be required: a key stands on one
line and within 1024 characters. -/
def dropStale (s : Scan) : Option Scan :=
  let stale (candidate : Candidate) : Bool :=
    candidate.start.line ≠ s.cursor.line || s.cursor.index - candidate.start.index > 1024
  if s.candidates.any fun entry => stale entry.2 && entry.2.required then none
  else some { s with candidates := s.candidates.filter fun entry => !stale entry.2 }

/-- Make the next token a candidate, if a key may stand here. -/
def addCandidate (s : Scan) : Option Scan :=
  if !s.keyAllowed then some s
  else s.dropCandidate.map fun s =>
    let candidate : Candidate :=
      { position := s.tokens.size, required := !s.inFlow && s.indent = s.cursor.column, start := s.cursor }
    { s with candidates := (s.depth, candidate) :: s.candidates }

/-- End the block collections whose column has been left. -/
def unwind (s : Scan) (column : Int) : Scan :=
  if s.inFlow then s else go s s.outer
where
  /-- End them from the innermost one on. -/
  go (s : Scan) : List Int → Scan
    | [] => s
    | indent :: outer =>
      if column < s.indent then go { s.push .blockEnd with indent, outer } outer else s

/-- The state with a block collection begun at a column, if it is to the right of the present one. -/
def indentTo? (s : Scan) (column : Int) : Option Scan :=
  if s.indent < column then some { s with indent := column, outer := s.indent :: s.outer } else none

/-- The place of the next token: blanks, comments and line ends are passed. Behind a line end a key may
stand, unless brackets are open. -/
def toToken (s : Scan) : Nat → Scan
  | 0 => s
  | fuel + 1 =>
    let c := s.cursor.skipWhile (· = ' ')
    let c := if c.sees '#' then c.skipWhile fun x => !isBreak x else c
    match c.lineBreak? with
    | none => { s with cursor := c }
    | some (_, c) => toToken { s with cursor := c, keyAllowed := s.keyAllowed || !s.inFlow } fuel

/-- Whether a character may stand in the name of an anchor. -/
def isNameChar (c : Char) : Bool := c.isAlphanum || c = '-' || c = '_'

/-- Whether a character may stand in a tag. -/
def isTagChar (c : Char) : Bool := c.isAlphanum || c ∈ "-;/?:@&=+$,_.!~*'()[]".toList

/-- The rest of a tag; escapes by percent signs are not taken. -/
def tagRest? (c : Cursor) : Option (String × Cursor) :=
  match c.span isTagChar with
  | ([], _) => none
  | (text, c) => some (String.ofList text, c)

/-- The handle at the beginning of a tag: an exclamation mark alone, or a name between two. -/
def tagHandle (c : Cursor) : String × Cursor :=
  let (name, after) := c.next.span isNameChar
  if after.sees '!' then ("!" ++ String.ofList name ++ "!", after.next) else ("!", c.next)

/-- A tag: the token and the place behind it. -/
def tag? (c : Cursor) : Option (Token × Cursor) := do
  let found ←
    if c.next.sees '<' then do
      let (text, c) ← tagRest? (c.skip 2)
      if c.sees '>' then some (Token.tag none text, c.next) else none
    else if c.endsAt 1 isGap then some (Token.tag none "!", c.next)
    else do
      let (handle, c) := tagHandle c
      let (text, c) ← tagRest? c
      some (Token.tag (some handle) text, c)
  if found.2.endsAt 0 fun x => x = ' ' || isBreak x then some found else none

/-- The place behind the rest of a directive's line, which may hold a comment only. -/
def directiveEnd? (c : Cursor) : Option Cursor :=
  let c := c.skipWhile (· = ' ')
  let c := if c.sees '#' then c.skipWhile fun x => !isBreak x else c
  if c.endsAt 0 isBreak then some c else none

/-- A directive: the token and the place behind it. A version must be a first one. -/
def directive? (c : Cursor) : Option (Token × Cursor) := do
  let (name, c) := c.next.span isNameChar
  if name = [] ∨ !c.endsAt 0 (fun x => x = ' ' || isBreak x) then none
  else if name = "YAML".toList then do
    let (major, c) := (c.skipWhile (· = ' ')).span Char.isDigit
    if major = [] ∨ !c.sees '.' ∨ (String.ofList major).toNat? ≠ some 1 then none
    let (minor, c) := c.next.span Char.isDigit
    if minor = [] ∨ !c.endsAt 0 (fun x => x = ' ' || isBreak x) then none
    some (.directive none true, ← directiveEnd? c)
  else if name = "TAG".toList then do
    let c := c.skipWhile (· = ' ')
    if !c.sees '!' then none
    let (handle, c) := tagHandle c
    if !c.sees ' ' then none
    let (start, c) ← tagRest? (c.skipWhile (· = ' '))
    if !c.endsAt 0 (fun x => x = ' ' || isBreak x) then none
    some (.directive (some (handle, start)) false, ← directiveEnd? c)
  else some (.directive none false, c.skipWhile fun x => !isBreak x)

/-- A mark at the beginning of a line that ends all collections. -/
def edge (s : Scan) : Option Scan :=
  (s.unwind (-1)).dropCandidate.map fun s => { s with keyAllowed := false }

/-- A bracket opens. -/
def openFlow (s : Scan) (t : Token) : Option Scan :=
  s.addCandidate.map fun s => { s.pass t 1 with depth := s.depth + 1, keyAllowed := true }

/-- A bracket closes. -/
def closeFlow (s : Scan) (t : Token) : Option Scan :=
  s.dropCandidate.map fun s => { s.pass t 1 with depth := s.depth - 1, keyAllowed := false }

/-- The state in which a block collection of the given kind has begun at the present column, unless one
has already. -/
def beginBlock (s : Scan) (t : Token) : Option Scan :=
  if s.inFlow then some s
  else if !s.keyAllowed then none
  else match s.indentTo? s.cursor.column with
    | some s => some (s.push t)
    | none => some s

/-- A dash before an item. -/
def item (s : Scan) : Option Scan := do
  let s ← (← s.beginBlock .blockList).dropCandidate
  some { s.pass .item 1 with keyAllowed := true }

/-- A question mark before a key. -/
def explicitKey (s : Scan) : Option Scan := do
  let s ← (← s.beginBlock .blockMap).dropCandidate
  some { s.pass .key 1 with keyAllowed := !s.inFlow }

/-- A colon, behind a candidate or not. -/
def colon (s : Scan) : Option Scan :=
  match s.candidates.lookup s.depth with
  | some candidate =>
    let before := s.tokens.extract 0 candidate.position
    let behind := s.tokens.extract candidate.position s.tokens.size
    let s := { s with candidates := s.candidates.filter fun entry => entry.1 ≠ s.depth }
    let (s, marks) := match if s.inFlow then none else s.indentTo? candidate.start.column with
      | some s => (s, #[Token.blockMap, .key])
      | none => (s, #[Token.key])
    some { s with cursor := s.cursor.next, keyAllowed := false
                  tokens := (before ++ marks ++ behind).push .value }
  | none => do
    let s ← (← s.beginBlock .blockMap).dropCandidate
    some { s.pass .value 1 with keyAllowed := !s.inFlow }

/-- The name behind the mark of an anchor or a reference, and the place behind it. -/
def name? (c : Cursor) : Option (String × Cursor) :=
  match c.next.span isNameChar with
  | ([], _) => none
  | (text, c) =>
    if c.endsAt 0 fun x => isGap x || x ∈ ['?', ':', ',', ']', '\x7d', '%', '@', '\x60'] then
      some (String.ofList text, c)
    else none

/-- A token that may be a key, or belong to one. -/
def keyPart (s : Scan) (found : Option (Token × Cursor)) : Option Scan := do
  let s ← s.addCandidate
  let (t, cursor) ← found
  some { s.push t with cursor, keyAllowed := false }

/-- A block scalar. -/
def blockScalar (s : Scan) (fold : Bool) : Option Scan := do
  let s ← s.dropCandidate
  let (text, cursor) ← blockText? fold s.indent s.cursor.next
  some { s.push (.scalar false (text.map .char)) with cursor, keyAllowed := true }

/-- A plain scalar. Where it ends behind a line end, a key may stand. -/
def plainScalar (s : Scan) : Option Scan :=
  s.addCandidate.map fun s =>
    let (text, cursor, crossed) :=
      plainText s.inFlow (s.indent + 1) [] s.cursor false (s.cursor.rest.length + 1)
    { s.push (.scalar true (text.map .char)) with cursor, keyAllowed := crossed }

/-- The state behind the token that begins with `x`, which is the next character. -/
def step (s : Scan) (x : Char) : Option Scan :=
  let c := s.cursor
  let marked := s.inFlow || c.endsAt 1 isGap
  let quoted (double : Bool) : Option Scan :=
    s.keyPart ((quotedText double c.next (c.rest.length + 1)).map fun (text, c) =>
      (.scalar false text, c))
  if c.column = 0 && x = '%' then do
    let s ← s.edge
    let (t, cursor) ← directive? c
    some { s.push t with cursor }
  else if c.column = 0 && c.seesSeparator '-' then s.edge.map (·.pass .documentStart 3)
  else if c.column = 0 && c.seesSeparator '.' then s.edge.map (·.pass .documentEnd 3)
  else if x = '[' then s.openFlow .flowList
  else if x = '\x7b' then s.openFlow .flowMap
  else if x = ']' then s.closeFlow .flowListEnd
  else if x = '\x7d' then s.closeFlow .flowMapEnd
  else if x = ',' then s.dropCandidate.map fun s => { s.pass .comma 1 with keyAllowed := true }
  else if x = '-' && c.endsAt 1 isGap then s.item
  else if x = '?' && marked then s.explicitKey
  else if x = ':' && marked then s.colon
  else if x = '*' then s.keyPart ((name? c).map fun (name, c) => (.reference name, c))
  else if x = '&' then s.keyPart ((name? c).map fun (name, c) => (.anchor name, c))
  else if x = '!' then s.keyPart (tag? c)
  else if x = '|' && !s.inFlow then s.blockScalar false
  else if x = '>' && !s.inFlow then s.blockScalar true
  else if x = '\'' then quoted false
  else if x = '"' then quoted true
  else if c.seesPlain s.inFlow then s.plainScalar
  else none

/-- The tokens from a state on. -/
def run (s : Scan) : Nat → Option (List Token)
  | 0 => none
  | fuel + 1 => do
    let s ← (s.toToken (s.cursor.rest.length + 1)).dropStale
    let s := s.unwind s.cursor.column
    match s.cursor.rest with
    | [] => (s.unwind (-1)).dropCandidate.map fun s => s.tokens.toList
    | x :: _ => run (← s.step x) fuel

end Scan

/-- The tokens of a document, if it is well-formed so far. -/
def tokens? (text : List Char) : Option (List Token) :=
  if !text.all isAdmitted then none
  else
    let start := match text with
      | '\uFEFF' :: rest => rest
      | _ => text
    Scan.run { cursor := { rest := start } } (2 * text.length + 2)

end ForwardChaining.Yaml
