/-!
# Ranges of code points

A property of characters is held as the closed ranges of code points that have it, ascending and apart,
so that a look-up may stop at the first range that begins beyond the code point.
-/

namespace ForwardChaining.Text

/-- Whether `n` lies in one of the ascending closed ranges. -/
def inRanges : List (Nat × Nat) → Nat → Bool
  | [], _ => false
  | (first, last) :: rest, n => if n < first then false else if n ≤ last then true else inRanges rest n

end ForwardChaining.Text
