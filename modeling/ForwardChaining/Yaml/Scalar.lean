import ForwardChaining.Text.CodePoint
import ForwardChaining.Yaml.Cursor

/-!
# Scalars of a document

A scalar is written plainly, between quotes, or as an indented block. In all three a line end within the
scalar is folded: a single one becomes a blank, and of several in a row the first goes and the others
stay. A literal block keeps its line ends.

Each function takes the place where a scalar, or what is left of it, begins, and answers its text and
the place behind it, or nothing if the scalar is ill-formed. The bound `fuel` is a number of characters
that cannot be exceeded.
-/

namespace ForwardChaining.Yaml

/-- A line end and the empty lines behind it, as they count in a folded scalar. -/
def folded (first : Char) (breaks : List Char) : List Char :=
  if first ≠ '\n' then first :: breaks else if breaks = [] then [' '] else breaks

/-! ### Quoted scalars -/

/-- The characters that escape letters stand for. -/
def escapeLetters : List (Char × Char) :=
  [('0', '\x00'), ('a', '\x07'), ('b', '\x08'), ('t', '\t'), ('\t', '\t'), ('n', '\n'), ('v', '\x0b'),
   ('f', '\x0c'), ('r', '\r'), ('e', '\x1b'), (' ', ' '), ('"', '"'), ('\\', '\\'), ('/', '/'),
   ('N', '\u0085'), ('_', '\u00a0'), ('L', '\u2028'), ('P', '\u2029')]

/-- The number of figures behind an escape letter that announces a code point. -/
def escapeWidth? (c : Char) : Option Nat :=
  if c = 'x' then some 2 else if c = 'u' then some 4 else if c = 'U' then some 8 else none

/-- The empty lines that come next, each as a line end, and the place of what follows them. A line that
separates documents may not be among them. -/
def emptyLines (c : Cursor) : Nat → Option (List Char × Cursor)
  | 0 => none
  | fuel + 1 =>
    if c.seesDocumentEdge then none
    else
      let c := c.skipWhile fun x => x = ' ' || x = '\t'
      match c.lineBreak? with
      | none => some ([], c)
      | some (x, c) => (emptyLines c fuel).map fun (breaks, c) => (x :: breaks, c)

/-- The text up to the closing quote, and the place behind it. -/
def quotedText (double : Bool) (c : Cursor) : Nat → Option (CodeText × Cursor)
  | 0 => none
  | fuel + 1 =>
    let continued (text : CodeText) (c : Cursor) : Option (CodeText × Cursor) :=
      (quotedText double c fuel).map fun (more, c) => (text ++ more, c)
    match c.rest with
    | [] => none
    | '\'' :: '\'' :: _ =>
      if double then continued [.char '\''] c.next else continued [.char '\''] (c.skip 2)
    | '\'' :: _ => if double then continued [.char '\''] c.next else some ([], c.next)
    | '"' :: _ => if double then some ([], c.next) else continued [.char '"'] c.next
    | '\\' :: x :: figures =>
      if !double then continued [.char '\\'] c.next
      else match escapeLetters.lookup x, escapeWidth? x with
        | some y, _ => continued [.char y] (c.skip 2)
        | none, some width =>
          (Text.hexNumber? 0 (figures.take width)).bind fun n =>
            if figures.length < width ∨ 0x110000 ≤ n then none
            else continued [.ofNat n] (c.skip (2 + width))
        | none, none =>
          c.next.lineBreak?.bind fun (_, c) =>
            (emptyLines c (fuel + 1)).bind fun (breaks, c) => continued (breaks.map .char) c
    | x :: _ =>
      if isGap x then
        let (blanks, c) := c.span fun x => x = ' ' || x = '\t'
        match c.lineBreak? with
        | none => continued (blanks.map .char) c
        | some (first, c) =>
          (emptyLines c (fuel + 1)).bind fun (breaks, c) => continued ((folded first breaks).map .char) c
      else if x = '\\' then none
      else continued [.char x] c.next

/-! ### Plain scalars -/

/-- Whether a character has a meaning of its own within brackets. -/
def isFlowMark (c : Char) : Bool := c = ',' || c = '[' || c = ']' || c = '\x7b' || c = '\x7d'

/-- Whether a plain scalar, `inFlow` if between brackets, may begin here. -/
def Cursor.seesPlain (c : Cursor) (inFlow : Bool) : Bool :=
  match c.rest with
  | [] => false
  | x :: _ =>
    if isGap x then false
    else if x = '-' then !c.endsAt 1 isGap
    else if x = '?' || x = ':' then !inFlow && !c.endsAt 1 isGap
    else x ∉ [',', '[', ']', '\x7b', '\x7d', '#', '&', '*', '!', '|', '>', '\'', '"', '%', '@', '\x60']

/-- The number of characters of a plain scalar up to the next gap or mark. -/
def plainRun (inFlow : Bool) : List Char → Nat
  | [] => 0
  | x :: rest =>
    if isGap x then 0
    else if x = ':' && (match rest with | [] => true | y :: _ => isGap y || inFlow && isFlowMark y) then 0
    else if inFlow && (isFlowMark x || x = '?') then 0
    else plainRun inFlow rest + 1

/-- The blanks and line ends that come next, the line ends as a list, up to a line that separates
documents; the flag says whether there is one. -/
def linesBetween (c : Cursor) : Nat → List Char × Cursor × Bool
  | 0 => ([], c, false)
  | fuel + 1 =>
    if c.sees ' ' then linesBetween c.next fuel
    else match c.lineBreak? with
      | none => ([], c, false)
      | some (x, c) =>
        if c.seesDocumentEdge then ([x], c, true)
        else
          let (breaks, c, atEdge) := linesBetween c fuel
          (x :: breaks, c, atEdge)

/-- The gap behind a run of a plain scalar as it counts if the scalar goes on, the place behind it, and
whether it holds a line end. The gap counts as nothing if a document ends within it. -/
def plainGap (c : Cursor) : List Char × Cursor × Bool :=
  let (blanks, c) := c.span (· = ' ')
  match c.lineBreak? with
  | none => (blanks, c, false)
  | some (first, c) =>
    if c.seesDocumentEdge then ([], c, true)
    else
      let (breaks, c, atEdge) := linesBetween c (c.rest.length + 1)
      (if atEdge then [] else folded first breaks, c, true)

/-- What is left of a plain scalar, where `before` stands for the gap before the next run: the text, the
place behind the scalar and the gap that follows it, and whether a line end stands there. The scalar
ends where a line begins in a column before `margin`, unless it stands between brackets. -/
def plainText (inFlow : Bool) (margin : Int) (before : List Char) (c : Cursor) (crossed : Bool) :
    Nat → List Char × Cursor × Bool
  | 0 => ([], c, crossed)
  | fuel + 1 =>
    let size := plainRun inFlow c.rest
    if c.sees '#' ∨ size = 0 then ([], c, crossed)
    else
      let run := before ++ c.rest.take size
      let (gap, c, crossed) := plainGap (c.skip size)
      if gap = [] ∨ c.sees '#' ∨ (inFlow = false ∧ (c.column : Int) < margin) then (run, c, crossed)
      else
        let (more, c, crossed) := plainText inFlow margin gap c crossed fuel
        (run ++ more, c, crossed)

/-! ### Block scalars -/

/-- What to do with the line ends behind a block: keep one, keep none, or keep all. -/
inductive Chomping where
  | clip
  | strip
  | keep
deriving DecidableEq

/-- What a sign in the head of a block asks for. -/
def chomping? (c : Char) : Option Chomping :=
  if c = '+' then some .keep else if c = '-' then some .strip else none

/-- An indentation in the head of a block: a figure other than zero. -/
def indentation? (c : Char) : Option Nat :=
  if 0x31 ≤ c.toNat ∧ c.toNat ≤ 0x39 then some (c.toNat - 0x30) else none

/-- The sign and the figure behind the mark of a block, in either order, and the place behind them. -/
def blockMarks (c : Cursor) : Chomping × Option Nat × Cursor :=
  match c.rest with
  | x :: y :: _ =>
    match chomping? x, indentation? x with
    | some chomping, _ => match indentation? y with
      | some width => (chomping, some width, c.skip 2)
      | none => (chomping, none, c.next)
    | none, some width => match chomping? y with
      | some chomping => (chomping, some width, c.skip 2)
      | none => (.clip, some width, c.next)
    | none, none => (.clip, none, c)
  | [x] =>
    match chomping? x, indentation? x with
    | some chomping, _ => (chomping, none, c.next)
    | none, some width => (.clip, some width, c.next)
    | none, none => (.clip, none, c)
  | [] => (.clip, none, c)

/-- The place behind the line of a block's mark: blanks, a comment and a line end. -/
def blockHeadEnd? (c : Cursor) : Option Cursor :=
  if !c.endsAt 0 fun x => x = ' ' || isBreak x then none
  else
    let c := c.skipWhile (· = ' ')
    let c := if c.sees '#' then c.skipWhile fun x => !isBreak x else c
    match c.rest with
    | [] => some c
    | _ => c.lineBreak?.map Prod.snd

/-- The empty lines before the first line of a block, the greatest column reached in them, and the place
behind them. -/
def blockStart (widest : Nat) (c : Cursor) : Nat → List Char × Nat × Cursor
  | 0 => ([], widest, c)
  | fuel + 1 =>
    if c.sees ' ' then blockStart (max widest c.next.column) c.next fuel
    else match c.lineBreak? with
      | none => ([], widest, c)
      | some (x, c) =>
        let (breaks, widest, c) := blockStart widest c fuel
        (x :: breaks, widest, c)

/-- The place at the given column of the line, or before it where the blanks end. -/
def indentTo (column : Nat) (c : Cursor) : Nat → Cursor
  | 0 => c
  | fuel + 1 => if c.column < column && c.sees ' ' then indentTo column c.next fuel else c

/-- The empty lines that come next in a block, and the place of what follows them. -/
def blockBreaks (column : Nat) (c : Cursor) : Nat → List Char × Cursor
  | 0 => ([], c)
  | fuel + 1 =>
    let c := indentTo column c (column + 1)
    match c.lineBreak? with
    | none => ([], c)
    | some (x, c) =>
      let (breaks, c) := blockBreaks column c fuel
      (x :: breaks, c)

/-- The lines of a block, where `breaks` are the empty lines before the next one. -/
def blockLines (fold : Bool) (chomping : Chomping) (column : Nat) (breaks : List Char) (c : Cursor) :
    Nat → List Char × Cursor
  | 0 => ([], c)
  | fuel + 1 =>
    let startsBlank := c.sees ' ' || c.sees '\t'
    let (line, c) := c.span fun x => !isBreak x
    let (ending, c) := match c.lineBreak? with
      | some (x, c) => ([x], c)
      | none => ([], c)
    let (after, c) := blockBreaks column c (c.rest.length + 1)
    if c.column = column && c.rest ≠ [] then
      let joint :=
        if fold && ending = ['\n'] && !startsBlank && !(c.sees ' ' || c.sees '\t') then
          if after = [] then [' '] else []
        else ending
      let (more, c) := blockLines fold chomping column after c fuel
      (breaks ++ line ++ joint ++ more, c)
    else
      (breaks ++ line ++ (if chomping = .strip then [] else ending)
        ++ (if chomping = .keep then after else []), c)

/-- A block scalar, its mark having been passed, within a collection of the given indentation. -/
def blockText? (fold : Bool) (indent : Int) (c : Cursor) : Option (List Char × Cursor) :=
  let (chomping, width?, c) := blockMarks c
  (blockHeadEnd? c).map fun c =>
    let least := max 1 (indent + 1).toNat
    let (breaks, column, c) := match width? with
      | none =>
        let (breaks, widest, c) := blockStart 0 c (c.rest.length + 1)
        (breaks, max least widest, c)
      | some width =>
        let column := least + width - 1
        let (breaks, c) := blockBreaks column c (c.rest.length + 1)
        (breaks, column, c)
    if c.column = column && c.rest ≠ [] then
      blockLines fold chomping column breaks c (c.rest.length + 1)
    else (if chomping = .keep then breaks else [], c)

end ForwardChaining.Yaml
