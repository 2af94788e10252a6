import ForwardChaining.Number.Binary64
import ForwardChaining.Value

/-!
# Times

A moment is a number of microseconds since the beginning of 1970, and is written as a date and a time of
the day, in universal time. Days are counted in years that begin in March, so that the day which only
some years have is the last one.
-/

namespace ForwardChaining.Log

/-- The microseconds of a number of seconds. Of a binary64 number the part behind the point is multiplied
in that format, and a half then goes to the even neighbour. -/
def microseconds : Value → Int
  | .int n => 1000000 * n
  | .real x =>
    match x.magnitude? with
    | none => 0
    | some (num, den) =>
      let part := match (Binary64.nearest false (num % den * 1000000) den).magnitude? with
        | some (a, b) => roundHalfEven a b
        | none => 0
      let size : Int := 1000000 * (num / den) + part
      if x.isNegative then -size else size
  | _ => 0

/-- A number with leading zeros. -/
def padded (width n : Nat) : String :=
  let cs := Nat.toDigits 10 n
  String.ofList (List.replicate (width - cs.length) '0' ++ cs)

/-- The year, the month and the day of the month of a day, counted from the beginning of 1970. -/
def dateOf (day : Int) : Int × Nat × Nat :=
  let shifted := day + 719468
  let era := shifted.fdiv 146097
  let dayOfEra := (shifted.fmod 146097).toNat
  let year := (dayOfEra - dayOfEra / 1460 + dayOfEra / 36524 - dayOfEra / 146096) / 365
  let dayOfYear := dayOfEra - (365 * year + year / 4 - year / 100)
  let month := (5 * dayOfYear + 2) / 153
  let dayOfMonth := dayOfYear - (153 * month + 2) / 5 + 1
  let calendarMonth := if month < 10 then month + 3 else month - 9
  (400 * era + year + (if calendarMonth ≤ 2 then 1 else 0), calendarMonth, dayOfMonth)

/-- The date of a moment, and the microseconds of its day. -/
def dateText (moment : Int) : String × Nat :=
  let (year, month, day) := dateOf (moment.fdiv 86400000000)
  (padded 4 year.toNat ++ "-" ++ padded 2 month ++ "-" ++ padded 2 day, (moment.fmod 86400000000).toNat)

/-- The hours, minutes and seconds of a part of a day. -/
def clockText (part : Nat) : String :=
  let second := part / 1000000
  padded 2 (second / 3600) ++ ":" ++ padded 2 (second / 60 % 60) ++ ":" ++ padded 2 (second % 60)

/-- A moment as records for programs show it: microseconds are given unless there are none. -/
def isoText (moment : Int) : String :=
  let (date, part) := dateText moment
  let fraction := part % 1000000
  date ++ "T" ++ clockText part ++ (if fraction = 0 then "" else "." ++ padded 6 fraction)

/-- A moment as records for readers show it, with milliseconds. -/
def plainText (moment : Int) : String :=
  let (date, part) := dateText moment
  date ++ " " ++ clockText part ++ "," ++ padded 3 (part % 1000000 / 1000)

end ForwardChaining.Log
