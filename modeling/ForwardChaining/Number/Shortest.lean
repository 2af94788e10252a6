import ForwardChaining.Number.Binary64

/-!
# The fewest digits that read back

A binary64 number is written with the fewest decimal digits that identify it: the decimals of one
digit are tried first, then those of two, and so on, and on each grid only the two neighbours of the
value can be the closest that reads back. The layout is a separate matter: `Binary64.text` writes the
digits positionally while the leading one stands between `10 ^ -4` and `10 ^ 15`, and with a signed
exponent of at least two figures otherwise.
-/

namespace ForwardChaining

/-- The decimal `digits * 10 ^ exponent`. -/
structure Decimal where
  digits : Nat
  exponent : Int
deriving DecidableEq

namespace Decimal

/-- The figures of the significand, leading one first. -/
def figures (d : Decimal) : List Char := Nat.toDigits 10 d.digits

/-- The exponent of the leading figure. -/
def leading (d : Decimal) : Int := d.exponent + d.figures.length - 1

/-- The same decimal with at most `fuel` trailing zeros moved into the exponent. -/
def strip : Nat → Decimal → Decimal
  | 0, d => d
  | fuel + 1, d => if d.digits % 10 = 0 then strip fuel ⟨d.digits / 10, d.exponent + 1⟩ else d

/-- The two neighbours of `num / den` on the grid of multiples of `10 ^ exponent`, the closer one
first; on a tie the even one comes first. -/
def neighbours (num den : Nat) (exponent : Int) : List Decimal :=
  let scaled := num * Nat.pow 10 (-exponent).toNat
  let unit := den * Nat.pow 10 exponent.toNat
  let below := scaled / unit
  let closest := roundHalfEven scaled unit
  [⟨closest, exponent⟩, ⟨if closest = below then below + 1 else below, exponent⟩]

/-- The decimal that is equal to `significand * 2 ^ exponent`. -/
def ofBinary (significand : Nat) (exponent : Int) : Decimal :=
  if 0 ≤ exponent then ⟨significand * Nat.pow 2 exponent.toNat, 0⟩
  else ⟨significand * Nat.pow 5 (-exponent).toNat, exponent⟩

end Decimal

namespace Binary64

/-- The least `k` with `num / den < 10 ^ k`, for positive `num` and `den`. -/
def decimalScale (num den : Nat) : Int :=
  if den ≤ num then (Nat.toDigits 10 (num / den)).length
  else 1 - ((Nat.toDigits 10 ((den - 1) / num)).length : Int)

/-- Whether the decimal, taken with the sign of `x`, reads as `x`. -/
def ReadsBack (x : Binary64) (d : Decimal) : Prop :=
  ofDecimal x.isNegative d.digits d.exponent = x

instance (x : Binary64) (d : Decimal) : Decidable (x.ReadsBack d) :=
  inferInstanceAs (Decidable (_ = _))

/-- The decimals that may stand for `num / den`, those of fewer digits first: on each grid the two
neighbours, without zeros at their ends. Seventeen digits identify every number of the format. -/
def shortCandidates (num den : Nat) : List Decimal :=
  let scale := decimalScale num den
  (List.range 17).flatMap fun (n : Nat) =>
    (Decimal.neighbours num den (scale - n - 1)).map (Decimal.strip 17)

/-- The decimal of fewest digits that reads back as `x`, whose parts are given; of two with as few digits,
the closer. -/
def shortestOf (x : Binary64) (significand : Nat) (exponent : Int) : Decimal :=
  let num := significand * Nat.pow 2 exponent.toNat
  let den := Nat.pow 2 (-exponent).toNat
  ((shortCandidates num den).find? fun d => decide (x.ReadsBack d)).getD
    (Decimal.ofBinary significand exponent)

/-- The figures of `d`, positionally or with an exponent, and always with a point or an exponent. -/
def layout (d : Decimal) : List Char :=
  let figures := d.figures
  let leading := d.leading
  if -4 ≤ leading ∧ leading < 16 then
    if 0 ≤ d.exponent then
      figures ++ List.replicate d.exponent.toNat '0' ++ ['.', '0']
    else if 0 ≤ leading then
      figures.take (leading.toNat + 1) ++ '.' :: figures.drop (leading.toNat + 1)
    else
      ['0', '.'] ++ List.replicate (-leading - 1).toNat '0' ++ figures
  else
    let mantissa := match figures with
      | first :: second :: rest => first :: '.' :: second :: rest
      | short => short
    let size := Nat.toDigits 10 leading.natAbs
    mantissa ++ 'e' :: (if leading < 0 then '-' else '+') :: (List.replicate (2 - size.length) '0' ++ size)

/-- The text of a number: the fewest digits that read back, `inf` and `nan` for what is no number. -/
def text (x : Binary64) : String :=
  let unsigned := match x with
    | finite _ significand exponent _ =>
      if significand = 0 then "0.0" else String.ofList (layout (x.shortestOf significand exponent))
    | infinite _ => "inf"
    | nan => "nan"
  if x.isNegative then "-" ++ unsigned else unsigned

end Binary64

end ForwardChaining
