/-!
# Hexadecimal figures

Escapes write a code point as a fixed number of hexadecimal figures, in small letters or in capitals.
-/

namespace ForwardChaining.Text

/-- The figure of a number below sixteen, in small letters. -/
def hexFigure (n : Nat) : Char :=
  if n < 10 then Char.ofNat (0x30 + n) else Char.ofNat (0x57 + n)

/-- The last `width` hexadecimal figures of `n`, leading zeros included. -/
def hexFigures : Nat → Nat → List Char
  | 0, _ => []
  | width + 1, n => hexFigures width (n / 16) ++ [hexFigure (n % 16)]

/-- The value of a hexadecimal figure, small or capital. -/
def hexValue? (c : Char) : Option Nat :=
  let n := c.toNat
  if 0x30 ≤ n ∧ n ≤ 0x39 then some (n - 0x30)
  else if 0x61 ≤ n ∧ n ≤ 0x66 then some (n - 0x57)
  else if 0x41 ≤ n ∧ n ≤ 0x46 then some (n - 0x37)
  else none

/-- The number that hexadecimal figures stand for, after those that gave `value`. -/
def hexNumber? (value : Nat) : List Char → Option Nat
  | [] => some value
  | c :: rest => (hexValue? c).bind fun d => hexNumber? (16 * value + d) rest

end ForwardChaining.Text
