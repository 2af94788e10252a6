/-!
# Binary64 numbers, held exactly

A finite number of the binary64 format is a sign, a significand of 53 bits and an exponent, and stands
for the rational number `± significand * 2 ^ exponent`. It is never kept as a machine float: every
comparison, reading and printing is exact integer arithmetic, so that statements about constants are
statements about rationals. Among the exponents that a number could be written with the least is taken,
so that equal parts mean equal numbers; only the two zeros have different parts and the same value.

The one operation with a rounding in it is `Binary64.nearest`, which takes a quotient to the closest
number of the format, a tie going to the even significand. Reading a decimal numeral
(`Binary64.ofDecimal`) is one use of it.
-/

namespace ForwardChaining

/-- Whether a significand and an exponent are parts of a number: the significand has 53 bits, and uses
all of them unless the exponent is the least. -/
def AreParts (significand : Nat) (exponent : Int) : Prop :=
  significand < Nat.pow 2 53 ∧ -1074 ≤ exponent ∧ exponent ≤ 971
    ∧ (Nat.pow 2 52 ≤ significand ∨ exponent = -1074)

instance (significand : Nat) (exponent : Int) : Decidable (AreParts significand exponent) :=
  inferInstanceAs (Decidable (_ ∧ _ ∧ _ ∧ _))

/-- A number of the binary64 format. -/
inductive Binary64 where
  | finite (negative : Bool) (significand : Nat) (exponent : Int) (parts : AreParts significand exponent)
  | infinite (negative : Bool)
  | nan
deriving DecidableEq

/-- The quotient `num / den` rounded to the nearest integer, a half going to the even neighbour. -/
def roundHalfEven (num den : Nat) : Nat :=
  let q := num / den
  let r := num % den
  if 2 * r < den then q else if den < 2 * r then q + 1 else q + q % 2

namespace Binary64

theorem areParts_zero : AreParts 0 (-1074) := by decide

/-- The zero of the given sign. -/
def zero (negative : Bool) : Binary64 := finite negative 0 (-1074) areParts_zero

/-- The number of a sign, a rounded significand and an exponent. A significand that was rounded up to
a bit too many is halved, and beyond the greatest exponent all numbers are infinite. -/
def ofRounded (negative : Bool) (significand : Nat) (exponent : Int) : Binary64 :=
  let (significand, exponent) :=
    if significand = Nat.pow 2 53 then (Nat.pow 2 52, exponent + 1) else (significand, exponent)
  if parts : AreParts significand exponent then finite negative significand exponent parts
  else infinite negative

/-- The exponent `e` with `2 ^ e ≤ num / den < 2 ^ (e + 1)`, for positive `num` and `den`. -/
def binaryExponent (num den : Nat) : Int :=
  let e : Int := (num.log2 : Int) - den.log2
  if den * Nat.pow 2 e.toNat ≤ num * Nat.pow 2 (-e).toNat then e else e - 1

/-- The number of the format that is closest to `num / den`, with the given sign. -/
def nearest (negative : Bool) (num den : Nat) : Binary64 :=
  if num = 0 then zero negative
  else
    let e := max (binaryExponent num den - 52) (-1074)
    ofRounded negative (roundHalfEven (num * Nat.pow 2 (-e).toNat) (den * Nat.pow 2 e.toNat)) e

/-- The number that the decimal `digits * 10 ^ exponent` reads as. Exponents far outside the format's
range are answered without computing the power of ten. -/
def ofDecimal (negative : Bool) (digits : Nat) (exponent : Int) : Binary64 :=
  if digits = 0 then zero negative
  else if 310 < exponent then infinite negative
  else if exponent + digits.log2 < -330 then zero negative
  else nearest negative (digits * Nat.pow 10 exponent.toNat) (Nat.pow 10 (-exponent).toNat)

/-- Whether the number is written with a minus sign. -/
def isNegative : Binary64 → Bool
  | finite negative .. => negative
  | infinite negative => negative
  | nan => false

/-- The magnitude of a finite number as a quotient. -/
def magnitude? : Binary64 → Option (Nat × Nat)
  | finite _ significand exponent _ =>
    some (significand * Nat.pow 2 exponent.toNat, Nat.pow 2 (-exponent).toNat)
  | _ => none

/-- Whether the number is one of the two zeros. -/
def isZero : Binary64 → Bool
  | finite _ significand .. => significand = 0
  | _ => false

/-- The number with its sign turned round. -/
def neg : Binary64 → Binary64
  | finite negative significand exponent parts => finite (!negative) significand exponent parts
  | infinite negative => infinite !negative
  | nan => nan

end Binary64

end ForwardChaining
