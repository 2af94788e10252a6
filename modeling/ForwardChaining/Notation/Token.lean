import ForwardChaining.Text.Blank
import ForwardChaining.Text.Quoted

/-!
# Tokens

The text of a knowledge base is cut into lexemes from left to right, each as long as it can be. Blanks
and comments are passed over, every other lexeme is a token. A place where no lexeme begins makes the
text unreadable, and `scan` answers with its position.

A quotation runs from a quote to the next quote of its kind. A backslash in it takes the character
behind it along, whatever that is but a line feed.
-/

namespace ForwardChaining.Notation

/-- The kinds of tokens. -/
inductive TokenKind where
  | arrow
  | variableName
  | quotation
  | identifier
  | opening
  | closing
  | comma
  | dot
deriving DecidableEq

/-- The word for a kind in messages. -/
def TokenKind.word : TokenKind → String
  | arrow => "ARROW"
  | variableName => "VAR"
  | quotation => "STRING"
  | identifier => "IDENT"
  | opening => "LPAREN"
  | closing => "RPAREN"
  | comma => "COMMA"
  | dot => "DOT"

/-- A token, with the characters it was read from and the position of the first of them. -/
structure Token where
  kind : TokenKind
  text : List Char
  position : Nat
deriving DecidableEq

/-- An ASCII letter or an underscore. -/
def isNameStart (c : Char) : Bool := c.isAlpha || c == '_'

/-- An ASCII letter or digit, or an underscore. -/
def isNameChar (c : Char) : Bool := c.isAlphanum || c == '_'

/-- How many characters of a text that follows an opening quote belong to the quotation, the closing
quote included. -/
def quotationLength? (quote : Char) : List Char → Option Nat
  | [] => none
  | '\\' :: c :: rest => if c = '\n' then none else (quotationLength? quote rest).map (· + 2)
  | c :: rest =>
    if c = quote then some 1
    else if c = '\\' then none
    else (quotationLength? quote rest).map (· + 1)

/-- The lexeme that a text begins with: its kind, if it is a token, and its length. -/
def lexeme? : List Char → Option (Option TokenKind × Nat)
  | [] => none
  | c :: rest =>
    if Text.isBlank c then some (none, (rest.takeWhile Text.isBlank).length + 1)
    else if c = '#' then some (none, (rest.takeWhile (· ≠ '\n')).length + 1)
    else if c = '=' then if rest.head? = some '>' then some (some .arrow, 2) else none
    else if c = '?' then
      if rest.head?.any isNameStart then
        some (some .variableName, (rest.takeWhile isNameChar).length + 1)
      else none
    else if c = '"' ∨ c = '\'' then
      (quotationLength? c rest).map fun n => (some .quotation, n + 1)
    else if isNameChar c then some (some .identifier, (rest.takeWhile isNameChar).length + 1)
    else if c = '(' then some (some .opening, 1)
    else if c = ')' then some (some .closing, 1)
    else if c = ',' then some (some .comma, 1)
    else if c = '.' then some (some .dot, 1)
    else none

/-- The tokens of a text that begins at a position, after `skip` characters which belong to a lexeme that
has been read; or the position at which no lexeme begins. -/
def scanFrom : Nat → Nat → List Char → Except Nat (List Token)
  | _, _, [] => .ok []
  | skip + 1, position, _ :: rest => scanFrom skip (position + 1) rest
  | 0, position, c :: rest =>
    match lexeme? (c :: rest) with
    | none => .error position
    | some (none, length) => scanFrom (length - 1) (position + 1) rest
    | some (some kind, length) =>
      match scanFrom (length - 1) (position + 1) rest with
      | .ok tokens => .ok ({ kind, text := (c :: rest).take length, position } :: tokens)
      | .error p => .error p

/-- The tokens of a text, or the position at which no lexeme begins. -/
def scan (cs : List Char) : Except Nat (List Token) := scanFrom 0 0 cs

/-- The text that the body of a quotation stands for: a backslash is dropped, and the character behind
it stands for itself. -/
def unescape : List Char → List Char
  | [] => []
  | '\\' :: c :: rest => c :: unescape rest
  | c :: rest => c :: unescape rest

/-- The text that a quotation stands for. -/
def unquote (quotation : List Char) : List Char := unescape (quotation.drop 1).dropLast

end ForwardChaining.Notation
