import ForwardChaining.Value

/-!
# Decimal numerals

The numerals of plain data: a minus sign, if any, figures without a superfluous leading zero, a
fraction and an exponent. A numeral with neither a fraction nor an exponent stands for an integer, of
any size, and every other for the binary64 number that it rounds to.

A point without a figure behind it, and an exponent without one, are not part of the numeral, which then
ends before them.
-/

namespace ForwardChaining

/-- Whether a character is one of the ten ASCII figures. -/
def isFigure (c : Char) : Bool := 0x30 ≤ c.toNat && c.toNat ≤ 0x39

/-- The figures at the beginning of a text, and the rest of it. -/
def figures (cs : List Char) : List Char × List Char := (cs.takeWhile isFigure, cs.dropWhile isFigure)

/-- The number that figures stand for, after those that gave `value`. -/
def valueOfFigures (value : Nat) : List Char → Nat
  | [] => value
  | c :: rest => valueOfFigures (10 * value + (c.toNat - 0x30)) rest

/-- The figures before a fraction: a zero, or figures that begin with another one. -/
def wholeFigures : List Char → List Char × List Char
  | '0' :: rest => (['0'], rest)
  | cs => figures cs

/-- The figures of a fraction, if there is one. -/
def fractionFigures : List Char → List Char × List Char
  | '.' :: rest =>
    match figures rest with
    | ([], _) => ([], '.' :: rest)
    | found => found
  | cs => ([], cs)

/-- The sign at the beginning of an exponent, and the rest. -/
def exponentSign : List Char → Bool × List Char
  | '-' :: rest => (true, rest)
  | '+' :: rest => (false, rest)
  | cs => (false, cs)

/-- An exponent, if there is one. -/
def exponent? : List Char → Option Int × List Char
  | [] => (none, [])
  | c :: cs =>
    if c = 'e' ∨ c = 'E' then
      let (negative, rest) := exponentSign cs
      match figures rest with
      | ([], _) => (none, c :: cs)
      | (found, rest) =>
        let size : Int := valueOfFigures 0 found
        (some (if negative then -size else size), rest)
    else (none, c :: cs)

/-- The number that figures and an exponent read as. Zeros at the end of the figures are taken into the
exponent first. -/
def realOfFigures (negative : Bool) (cs : List Char) (exponent : Int) : Binary64 :=
  let d := (Decimal.mk (valueOfFigures 0 cs) exponent).strip cs.length
  .ofDecimal negative d.digits d.exponent

/-- The number that an unsigned numeral at the beginning of a text stands for, and the rest. -/
def unsignedNumeral? (negative : Bool) (cs : List Char) : Option (Value × List Char) :=
  match wholeFigures cs with
  | ([], _) => none
  | (whole, rest) =>
    let (fraction, rest) := fractionFigures rest
    let (exponent, rest) := exponent? rest
    if fraction = [] ∧ exponent = none then
      let size : Int := valueOfFigures 0 whole
      some (.int (if negative then -size else size), rest)
    else
      some (.real (realOfFigures negative (whole ++ fraction) (exponent.getD 0 - fraction.length)), rest)

/-- The number that the numeral at the beginning of a text stands for, and the rest of the text. -/
def numeral? : List Char → Option (Value × List Char)
  | '-' :: cs => unsignedNumeral? true cs
  | cs => unsignedNumeral? false cs

end ForwardChaining
