/-!
# Lines

A text is cut at every line boundary: the line feed, the carriage return, the two of them in a row as
one boundary, the vertical tab, the form feed, the separators U+001C to U+001E, the next-line control
and the line and paragraph separators. A boundary at the very end opens no further line, so that the
empty text has no lines at all.
-/

namespace ForwardChaining.Text

/-- Whether a character ends a line. -/
def isLineEnd (c : Char) : Bool :=
  let n := c.toNat
  (0x0A ≤ n && n ≤ 0x0D) || (0x1C ≤ n && n ≤ 0x1E) || n == 0x85 || n == 0x2028 || n == 0x2029

/-- The lines of a text, without the boundaries that end them. -/
def lines : List Char → List (List Char)
  | [] => []
  | '\r' :: '\n' :: rest => [] :: lines rest
  | c :: rest =>
    if isLineEnd c then [] :: lines rest
    else match lines rest with
      | [] => [[c]]
      | line :: more => (c :: line) :: more

end ForwardChaining.Text
