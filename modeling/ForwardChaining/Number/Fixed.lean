import ForwardChaining.Number.Shortest

/-!
# Numbers with a given count of figures

A number is also written with a fixed count of figures behind the point, or with a fixed count of figures
in all and an exponent. In both the exact value is rounded once, a half going to the even neighbour.
-/

namespace ForwardChaining

/-- The figures of a number, at least `width` of them. -/
def figuresOf (width n : Nat) : List Char :=
  let cs := Nat.toDigits 10 n
  List.replicate (width - cs.length) '0' ++ cs

/-- A point and the figures behind it; a point without figures only if it is asked for. -/
def pointed (keepPoint : Bool) (fraction : List Char) : List Char :=
  if fraction.isEmpty && !keepPoint then [] else '.' :: fraction

/-- The quotient `num / den` with `places` figures behind the point. -/
def fixedText (keepPoint : Bool) (places num den : Nat) : List Char :=
  let all := figuresOf (places + 1) (roundHalfEven (num * Nat.pow 10 places) den)
  let cut := all.length - places
  all.take cut ++ pointed keepPoint (all.drop cut)

/-- The `places + 1` leading figures of the quotient `num / den`, rounded, and the exponent of the first. -/
def leadingFigures (places num den : Nat) : List Char × Int :=
  if num = 0 then (List.replicate (places + 1) '0', 0)
  else
    let scale := Binary64.decimalScale num den - 1
    let shift : Int := places - scale
    let rounded := roundHalfEven (num * Nat.pow 10 shift.toNat) (den * Nat.pow 10 (-shift).toNat)
    let all := Nat.toDigits 10 rounded
    if all.length > places + 1 then (all.take (places + 1), scale + 1) else (all, scale)

/-- An exponent: its letter, its sign and at least two figures. -/
def exponentText (exponent : Int) : List Char :=
  'e' :: (if exponent < 0 then '-' else '+') :: figuresOf 2 exponent.natAbs

/-- The quotient `num / den` with one figure before the point, `places` behind it, and an exponent. -/
def scientificText (keepPoint : Bool) (places num den : Nat) : List Char :=
  let (all, exponent) := leadingFigures places num den
  all.take 1 ++ pointed keepPoint (all.drop 1) ++ exponentText exponent

/-- The text without zeros at its end, and without a point there. -/
def withoutZeros (cs : List Char) : List Char :=
  if '.' ∈ cs then
    ((cs.reverse.dropWhile (· = '0')).dropWhile (· = '.')).reverse
  else cs

/-- The quotient `num / den` with `count` figures in all, or one if none are asked for: positionally while
the exponent is at least -4 and below the count, else with an exponent. Zeros at the end are left out,
unless they are to be kept. -/
def generalText (keepZeros : Bool) (count num den : Nat) : List Char :=
  let count := max 1 count
  let (all, exponent) := leadingFigures (count - 1) num den
  if -4 ≤ exponent ∧ exponent < count then
    let cs := fixedText keepZeros ((count : Int) - 1 - exponent).toNat num den
    if keepZeros then cs else withoutZeros cs
  else
    let cs := all.take 1 ++ pointed keepZeros (all.drop 1)
    (if keepZeros then cs else withoutZeros cs) ++ exponentText exponent

end ForwardChaining
