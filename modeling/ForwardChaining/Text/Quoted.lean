import ForwardChaining.Text.Hex
import ForwardChaining.Text.Printable

/-!
# Quoted text

Messages show a text between quotes, so that its ends and its invisible characters can be seen. Single
quotes are taken unless the text holds a single quote and no double one. The quote, the backslash and
the three common controls are escaped by a letter, every other character that is not printable by its
code point in two, four or eight figures.
-/

namespace ForwardChaining.Text

/-- The quote that stands around a text. -/
def quoteFor (cs : List Char) : Char :=
  if '\'' ∈ cs ∧ '"' ∉ cs then '"' else '\''

/-- How one character is written between two quotes `quote`. -/
def quoteChar (quote c : Char) : List Char :=
  if c = quote ∨ c = '\\' then ['\\', c]
  else if c = '\n' then ['\\', 'n']
  else if c = '\r' then ['\\', 'r']
  else if c = '\t' then ['\\', 't']
  else if isPrintable c then [c]
  else if c.toNat < 0x100 then '\\' :: 'x' :: hexFigures 2 c.toNat
  else if c.toNat < 0x10000 then '\\' :: 'u' :: hexFigures 4 c.toNat
  else '\\' :: 'U' :: hexFigures 8 c.toNat

/-- The text between quotes. -/
def quoted (cs : List Char) : List Char :=
  let quote := quoteFor cs
  quote :: cs.flatMap (quoteChar quote) ++ [quote]

/-- The text between quotes, as a string. -/
def quote (s : String) : String := String.ofList (quoted s.toList)

end ForwardChaining.Text
