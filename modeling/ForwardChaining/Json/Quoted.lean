import ForwardChaining.Text.CodePoint

/-!
# Texts in JSON

A text is written between double quotes. The quote, the backslash and five controls are escaped by a
letter; every other code point that is not printable ASCII is escaped by its number in four figures, or,
beyond the first 65536 code points, as two such escapes, the halves of a surrogate pair.

Reading takes back every escape, and joins the halves of a pair: also of one whose halves were two code
points when it was written.
-/

namespace ForwardChaining.Json

/-- A code unit as an escape of four figures. -/
def unitEscape (n : Nat) : List Char := '\\' :: 'u' :: Text.hexFigures 4 n

/-- How a character stands between quotes. -/
def escapedChar (c : Char) : List Char :=
  if c = '"' then ['\\', '"']
  else if c = '\\' then ['\\', '\\']
  else if c = '\n' then ['\\', 'n']
  else if c = '\r' then ['\\', 'r']
  else if c = '\t' then ['\\', 't']
  else if c = '\x08' then ['\\', 'b']
  else if c = '\x0c' then ['\\', 'f']
  else if 0x20 ≤ c.toNat ∧ c.toNat ≤ 0x7E then [c]
  else if c.toNat < 0x10000 then unitEscape c.toNat
  else
    let offset := c.toNat - 0x10000
    unitEscape (0xD800 + offset / 0x400) ++ unitEscape (0xDC00 + offset % 0x400)

/-- How a code point stands between quotes. -/
def escaped : CodePoint → List Char
  | .char c => escapedChar c
  | c => unitEscape c.toNat

/-- A text between quotes. -/
def quoted (s : CodeText) : List Char := '"' :: s.flatMap escaped ++ ['"']

/-- The character that an escape letter stands for. -/
def escapeLetter? (c : Char) : Option Char :=
  if c = '"' ∨ c = '\\' ∨ c = '/' then some c
  else if c = 'n' then some '\n'
  else if c = 'r' then some '\r'
  else if c = 't' then some '\t'
  else if c = 'b' then some '\x08'
  else if c = 'f' then some '\x0c'
  else none

/-- The code units up to the closing quote, and what follows it. A control may not stand for itself. -/
def codeUnits : List Char → Option (List Nat × List Char)
  | [] => none
  | '"' :: rest => some ([], rest)
  | '\\' :: 'u' :: c₁ :: c₂ :: c₃ :: c₄ :: rest =>
    (Text.hexNumber? 0 [c₁, c₂, c₃, c₄]).bind fun n =>
      (codeUnits rest).map fun (units, rest) => (n :: units, rest)
  | '\\' :: c :: rest =>
    (escapeLetter? c).bind fun c => (codeUnits rest).map fun (units, rest) => (c.toNat :: units, rest)
  | c :: rest =>
    if c.toNat < 0x20 ∨ c = '\\' then none
    else (codeUnits rest).map fun (units, rest) => (c.toNat :: units, rest)

/-- Whether a code unit is the first half of a pair. -/
def isFirstHalf (n : Nat) : Bool := 0xD800 ≤ n && n < 0xDC00

/-- Whether a code unit is the second half of a pair. -/
def isSecondHalf (n : Nat) : Bool := 0xDC00 ≤ n && n < 0xE000

/-- The code points of code units. -/
def codePoints : List Nat → CodeText
  | [] => []
  | first :: second :: rest =>
    if isFirstHalf first && isSecondHalf second then
      .char (Char.ofNat (0x10000 + (first - 0xD800) * 0x400 + (second - 0xDC00))) :: codePoints rest
    else CodePoint.ofNat first :: codePoints (second :: rest)
  | [n] => [CodePoint.ofNat n]

/-- The text whose opening quote has been passed, and what follows its closing quote. -/
def unquote? (cs : List Char) : Option (CodeText × List Char) :=
  (codeUnits cs).map fun (units, rest) => (codePoints units, rest)

end ForwardChaining.Json
