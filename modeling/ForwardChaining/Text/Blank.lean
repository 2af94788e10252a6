import ForwardChaining.Text.Ranges

/-!
# Blank characters

A character is blank if it has the property White_Space or is one of the four information separators
U+001C to U+001F. Blanks separate the tokens of a knowledge base and may surround a numeral.
-/

namespace ForwardChaining.Text

/-- The blank code points. -/
def blankRanges : List (Nat × Nat) :=
  [(0x09, 0x0D), (0x1C, 0x20), (0x85, 0x85), (0xA0, 0xA0), (0x1680, 0x1680), (0x2000, 0x200A),
   (0x2028, 0x2029), (0x202F, 0x202F), (0x205F, 0x205F), (0x3000, 0x3000)]

/-- Whether a character is blank. -/
def isBlank (c : Char) : Bool := inRanges blankRanges c.toNat

/-- The text without the blanks at its two ends. -/
def trimBlank (cs : List Char) : List Char :=
  ((cs.dropWhile isBlank).reverse.dropWhile isBlank).reverse

end ForwardChaining.Text
