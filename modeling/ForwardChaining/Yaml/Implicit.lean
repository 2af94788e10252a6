import ForwardChaining.Number.Numeral
import ForwardChaining.Term.Display
import ForwardChaining.Text.Hex

/-!
# What a plain scalar stands for

A scalar without quotes stands for a truth value, a number or nothing if it has the form of one, and for
its own text otherwise. Integers may be written to the bases two, eight, ten and sixteen, and integers
and reals to the base sixty with colons; underscores may group the figures. Two marks have a meaning of
their own: one merges maps, and the other can only be a key.
-/

namespace ForwardChaining.Yaml

/-- What a plain scalar stands for. -/
inductive Plain where
  | value (v : Value)
  /-- A numeral to the base two or sixteen without any figures. -/
  | malformed
  /-- A date, or a date and a time, for which plain data have no value. -/
  | moment
  /-- The mark for merging maps. -/
  | merge
  /-- The mark for the default entry. -/
  | standard

/-- The words for truth values. -/
def truthWords : List (String × Bool) :=
  [("yes", true), ("Yes", true), ("YES", true), ("no", false), ("No", false), ("NO", false),
   ("true", true), ("True", true), ("TRUE", true), ("false", false), ("False", false),
   ("FALSE", false), ("on", true), ("On", true), ("ON", true), ("off", false), ("Off", false),
   ("OFF", false)]

/-- The words for nothing. -/
def nullWords : List String := ["", "~", "null", "Null", "NULL"]

/-- The number that figures to a base stand for. -/
def valueInBase (base : Nat) (cs : List Char) : Nat :=
  cs.foldl (fun n c => base * n + (Text.hexValue? c).getD 0) 0

/-- The text without its underscores. -/
def ungrouped (cs : List Char) : List Char := cs.filter (· ≠ '_')

/-- Whether a character is a figure or an underscore. -/
def isGrouped (c : Char) : Bool := isFigure c || c = '_'

/-- The sign at the beginning of a numeral, and the rest. -/
def signed (cs : List Char) : Bool × List Char := exponentSign cs

/-- The integer of a size and a sign. -/
def signedInt (negative : Bool) (n : Nat) : Int := if negative then -(n : Int) else n

/-- A part behind a colon to the base sixty: one or two figures, below sixty. -/
def isSixtieth : List Char → Bool
  | [c] => isFigure c
  | [c, d] => isFigure c && c.toNat < 0x36 && isFigure d
  | _ => false

/-- The parts of a text between colons. -/
def colonParts : List Char → List (List Char)
  | [] => [[]]
  | ':' :: rest => [] :: colonParts rest
  | c :: rest =>
    match colonParts rest with
    | [] => [[c]]
    | part :: more => (c :: part) :: more

/-- The size of an unsigned integer numeral. -/
def natural? (cs : List Char) : Option Nat :=
  let inBase (base : Nat) (isDigit : Char → Bool) (cs : List Char) : Option Nat :=
    if cs ≠ [] ∧ cs.all (fun c => isDigit c || c = '_') then some (valueInBase base (ungrouped cs))
    else none
  match cs with
  | ['0'] => some 0
  | '0' :: 'b' :: rest => inBase 2 (fun c => c = '0' || c = '1') rest
  | '0' :: 'x' :: rest => inBase 16 (fun c => (Text.hexValue? c).isSome) rest
  | '0' :: rest => inBase 8 (fun c => isFigure c && c.toNat < 0x38) rest
  | c :: _ =>
    if !isFigure c then none
    else match colonParts cs with
      | [whole] => if whole.all isGrouped then some (valueInBase 10 (ungrouped whole)) else none
      | whole :: parts =>
        if whole.all isGrouped && parts.all isSixtieth then
          some (parts.foldl (fun n part => 60 * n + valueInBase 10 part) (valueInBase 10 (ungrouped whole)))
        else none
      | [] => none
  | [] => none

/-- An exponent at the end of a real numeral: a sign and figures, or nothing at all. -/
def realExponent? : List Char → Option Int
  | [] => some 0
  | c :: s :: rest =>
    if (c = 'e' || c = 'E') && (s = '+' || s = '-') && rest ≠ [] && rest.all isFigure then
      some (signedInt (s = '-') (valueOfFigures 0 rest))
    else none
  | _ => none

/-- The sum `x + factor * y` for numbers that are not negative, rounded after each of the two operations. -/
def roundedSum (x y : Binary64) (factor : Nat) : Binary64 :=
  match x.magnitude?, y.magnitude? with
  | some (a, b), some (c, d) =>
    match (Binary64.nearest false (c * factor) d).magnitude? with
    | some (c, d) => .nearest false (a * d + c * b) (b * d)
    | none => .infinite false
  | _, _ => .infinite false

/-- The size of an unsigned real numeral. -/
def real? (negative : Bool) (cs : List Char) : Option Binary64 :=
  match colonParts cs with
  | [cs] =>
    let (whole, rest) := (cs.takeWhile isGrouped, cs.dropWhile isGrouped)
    match rest with
    | '.' :: rest =>
      let (fraction, rest) := (rest.takeWhile isGrouped, rest.dropWhile isGrouped)
      (realExponent? rest).bind fun exponent =>
        let leads (part : List Char) : Bool := part.head?.any isFigure
        if leads whole || whole = [] && leads fraction then
          some (realOfFigures negative (ungrouped (whole ++ fraction))
            (exponent - (ungrouped fraction).length))
        else none
    | _ => none
  | whole :: parts =>
    match parts.reverse with
    | [] => none
    | last :: between =>
      let (seconds, rest) := (last.takeWhile isFigure, last.dropWhile isFigure)
      match rest with
      | '.' :: fraction =>
        if whole.head?.any isFigure && whole.all isGrouped && between.all isSixtieth && isSixtieth seconds
            && fraction.all isGrouped then
          let smallest := Binary64.ofDecimal false
            (valueOfFigures 0 (seconds ++ ungrouped fraction)) (-((ungrouped fraction).length : Int))
          let places := between ++ [ungrouped whole]
          let (sum, _) := places.foldl (fun (sum, factor) part =>
            (roundedSum sum (.ofDecimal false (valueOfFigures 0 part) 0) factor, 60 * factor)) (smallest, 60)
          some (if negative then sum.neg else sum)
        else none
      | _ => none
  | [] => none

/-- The words for reals without a finite value. -/
def unboundedReal? (signGiven negative : Bool) (cs : List Char) : Option Binary64 :=
  let word := String.ofList cs
  if word ∈ [".inf", ".Inf", ".INF"] then some (.infinite negative)
  else if !signGiven && word ∈ [".nan", ".NaN", ".NAN"] then some .nan
  else none

/-- The figures at the beginning of a text, and what follows them, if their number is admitted. -/
def figuresOf? (counts : List Nat) (cs : List Char) : Option (List Char) :=
  let (found, rest) := figures cs
  if found.length ∈ counts then some rest else none

/-- What follows a mark at the beginning of a text. -/
def behind? (mark : Char) : List Char → Option (List Char)
  | [] => none
  | c :: rest => if c = mark then some rest else none

/-- Whether a text is the zone of a time, or nothing. -/
def isZone : List Char → Bool
  | [] => true
  | 'Z' :: rest => rest.isEmpty
  | c :: rest =>
    (c = '+' || c = '-') && match figuresOf? [1, 2] rest with
      | some [] => true
      | some (':' :: minutes) => figuresOf? [2] minutes = some []
      | _ => false

/-- Whether a text is a time, with a fraction and a zone if any. -/
def isTime (cs : List Char) : Bool :=
  let rest? := do
    let rest ← figuresOf? [1, 2] cs
    let rest ← figuresOf? [2] (← behind? ':' rest)
    figuresOf? [2] (← behind? ':' rest)
  match rest? with
  | none => false
  | some rest =>
    let zone := match rest with
      | '.' :: rest => rest.dropWhile isFigure
      | rest => rest
    isZone (zone.dropWhile fun c => c = ' ' || c = '\t')

/-- Whether a text is a date, or a date and a time behind a letter or blanks. -/
def isMoment (cs : List Char) : Bool :=
  let day (counts : List Nat) : Option (List Char) := do
    let rest ← figuresOf? [4] cs
    let rest ← figuresOf? counts (← behind? '-' rest)
    figuresOf? counts (← behind? '-' rest)
  day [2] = some [] || match day [1, 2] with
    | some (c :: rest) =>
      if c = 'T' || c = 't' then isTime rest
      else (c = ' ' || c = '\t') && isTime (rest.dropWhile fun c => c = ' ' || c = '\t')
    | _ => false

/-- The numbers that the figures of a text spell, in order. -/
def numbersOf (cs : List Char) : List Nat :=
  (cs.splitBy fun c d => isFigure c == isFigure d).filterMap fun part =>
    if part.all isFigure then some (valueOfFigures 0 part) else none

/-- The number of days of a month. -/
def daysIn (year month : Nat) : Nat :=
  if month = 2 then if year % 4 = 0 && (year % 100 ≠ 0 || year % 400 = 0) then 29 else 28
  else if month ∈ [4, 6, 9, 11] then 30
  else 31

/-- Whether a text with the form of a moment names one: a day of the calendar, a time of the day, and a zone
less than a day away. All dashes of a date stand among its first eight characters. -/
def isOnCalendar (cs : List Char) : Bool :=
  let zone := match numbersOf ((cs.drop 8).dropWhile fun c => c ≠ '+' && c ≠ '-') with
    | [hours] => hours < 24
    | [hours, minutes] => 60 * hours + minutes < 1440
    | _ => true
  match numbersOf cs with
  | year :: month :: day :: time =>
    (1 ≤ year && 1 ≤ month && month ≤ 12 && 1 ≤ day && day ≤ daysIn year month) && match time with
      | hour :: minute :: second :: _ => hour < 24 && minute < 60 && second < 60 && zone
      | _ => true
  | _ => false

/-- The zone of a moment as a message shows it. -/
def zoneShown (cs : List Char) : String :=
  let shift (isWest : Bool) (seconds : Nat) : String :=
    if seconds = 0 then ", tzinfo=datetime.timezone.utc"
    else ", tzinfo=datetime.timezone(datetime.timedelta("
      ++ (if isWest then "days=-1, seconds=" ++ toString (86400 - seconds) else "seconds=" ++ toString seconds)
      ++ "))"
  match (cs.drop 8).dropWhile fun c => c ≠ '+' && c ≠ '-' && c ≠ 'Z' with
  | [] => ""
  | sign :: rest => shift (sign = '-') (match numbersOf rest with
    | [hours] => 3600 * hours
    | [hours, minutes] => 3600 * hours + 60 * minutes
    | _ => 0)

/-- A moment as a message shows it. -/
def momentShown (cs : List Char) : String :=
  match numbersOf cs with
  | year :: month :: day :: hour :: minute :: second :: _ =>
    let figures := (((cs.dropWhile (· ≠ '.')).drop 1).takeWhile isFigure).take 6
    let micro := valueOfFigures 0 (figures ++ List.replicate (6 - figures.length) '0')
    let clock :=
      if micro ≠ 0 then [hour, minute, second, micro]
      else if second ≠ 0 then [hour, minute, second]
      else [hour, minute]
    "datetime.datetime(" ++ commaSeparated (([year, month, day] ++ clock).map toString) ++ zoneShown cs ++ ")"
  | numbers => "datetime.date(" ++ commaSeparated (numbers.map toString) ++ ")"

/-- What a plain scalar stands for. -/
def Plain.of (s : String) : Plain :=
  let cs := s.toList
  let (negative, unsigned) := signed cs
  let signGiven := unsigned ≠ cs
  if s ∈ nullWords then .value .null
  else if s = "<<" then .merge
  else if s = "=" then .standard
  else match truthWords.lookup s with
    | some b => .value (.bool b)
    | none =>
      match unboundedReal? signGiven negative unsigned with
      | some x => .value (.real x)
      | none =>
        if signGiven && unsigned.head? = some '.' then .value (.text s)
        else match real? negative unsigned with
          | some x => .value (.real x)
          | none =>
            match natural? unsigned with
            | some n =>
              if unsigned.length ≥ 3 && (unsigned.drop 2).all (· = '_')
                  && (unsigned.take 2 = ['0', 'b'] || unsigned.take 2 = ['0', 'x']) then .malformed
              else .value (.int (signedInt negative n))
            | none => if isMoment cs then .moment else .value (.text s)

end ForwardChaining.Yaml
