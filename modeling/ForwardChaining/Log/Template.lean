import ForwardChaining.Log.Record
import ForwardChaining.Number.Fixed

/-!
# Message templates

A message may be given as a template and arguments. A percent sign in it begins a directive, or stands
for itself if another one follows it. A directive takes the next argument, or one chosen by name, and
says how to show it: flags, a width, a precision and a letter for the kind. Every argument must be used.
Without arguments a message is no template and stands for itself.
-/

namespace ForwardChaining.Log

/-- Why a template cannot be filled. -/
inductive TemplateError where
  /-- The arguments do not suit the directives, in number or in kind. -/
  | arguments
  /-- A directive is incomplete or has an unknown letter. -/
  | directive
  /-- An argument chosen by name is missing. -/
  | name
deriving DecidableEq

/-- How a directive asks for an argument to be shown. -/
structure Directive where
  alternate : Bool := false
  zeros : Bool := false
  left : Bool := false
  blank : Bool := false
  sign : Bool := false
  width : Nat := 0
  precision : Option Nat := none
deriving DecidableEq

/-- The arguments that are left, or those that are chosen by name. -/
inductive Arguments where
  | inTurn (left : List FieldValue)
  /-- A single map. It may also be taken as a whole, unless something has been taken before. -/
  | byName (entries : List (CodeText × FieldValue)) (untouched : Bool)

mutual
/-- The text that a message shows for the value of a field, texts between quotes. -/
def shown : FieldValue → String
  | .datum d => d.shown
  | .term t => t.shown
  | .other _ shown => shown
  | .list items => "[" ++ commaSeparated (shownAll items) ++ "]"
  | .map entries => "\x7b" ++ commaSeparated (shownEntries entries) ++ "\x7d"

/-- The texts that a message shows for a list of values. -/
def shownAll : List FieldValue → List String
  | [] => []
  | x :: xs => shown x :: shownAll xs

/-- The texts that a message shows for the entries of a map. -/
def shownEntries : List (CodeText × FieldValue) → List String
  | [] => []
  | (key, x) :: rest => (Text.quoteCodes key ++ ": " ++ shown x) :: shownEntries rest
end

/-- The text of a value by itself, a text without quotes. -/
def displayed : FieldValue → CodeText
  | .datum (.scalar v) => v.display
  | .term t => t.display
  | .other display _ => display
  | x => shown x

/-- A text with every character beyond ASCII as an escape. -/
def inAscii (s : String) : String :=
  String.ofList (s.toList.flatMap fun c =>
    if c.toNat < 0x7F then [c]
    else if c.toNat < 0x100 then '\\' :: 'x' :: Text.hexFigures 2 c.toNat
    else if c.toNat < 0x10000 then '\\' :: 'u' :: Text.hexFigures 4 c.toNat
    else '\\' :: 'U' :: Text.hexFigures 8 c.toNat)

/-- A text set to the width of a directive. -/
def setText (d : Directive) (cs : CodeText) : CodeText :=
  let cs := match d.precision with
    | some n => cs.take n
    | none => cs
  let fill := List.replicate (d.width - cs.length) (.char ' ')
  if d.left then cs ++ fill else fill ++ cs

/-- A number set to the width of a directive: zeros stand behind the sign and the mark of the base. -/
def setNumber (d : Directive) (negative : Bool) (mark cs : List Char) : List Char :=
  let sign := if negative then ['-'] else if d.sign then ['+'] else if d.blank then [' '] else []
  let room := d.width - (sign.length + mark.length + cs.length)
  if d.left then sign ++ mark ++ cs ++ List.replicate room ' '
  else if d.zeros then sign ++ mark ++ List.replicate room '0' ++ cs
  else List.replicate room ' ' ++ sign ++ mark ++ cs

/-- An integer to a base, with at least as many figures as the precision asks for. -/
def setInteger (d : Directive) (base : Nat) (mark : List Char) (n : Int) : List Char :=
  let cs := Nat.toDigits base n.natAbs
  let cs := List.replicate ((d.precision.getD 0) - cs.length) '0' ++ cs
  setNumber d (n < 0) (if d.alternate then mark else []) cs

/-- The integer that a value is. -/
def integer? : FieldValue → Option Int
  | .datum (.scalar (.int n)) => some n
  | .datum (.scalar (.bool b)) => some (if b then 1 else 0)
  | _ => none

/-- The integer that a value is or that is left of it without its fraction. -/
def wholePart? : FieldValue → Option Int
  | .datum (.scalar (.real x)) => x.magnitude?.map fun (num, den) =>
    if x.isNegative then -((num / den : Nat) : Int) else ((num / den : Nat) : Int)
  | x => integer? x

/-- The number that a value is. -/
def real? : FieldValue → Option Binary64
  | .datum (.scalar (.real x)) => some x
  | x => (integer? x).map fun n => .nearest (n < 0) n.natAbs 1

/-- A real number laid out by `layout`. -/
def setReal (d : Directive) (layout : Nat → Nat → Nat → List Char) (x : Binary64) : List Char :=
  match x.magnitude? with
  | some (num, den) => setNumber d x.isNegative [] (layout (d.precision.getD 6) num den)
  | none => setNumber d x.isNegative [] (if x = .nan then "nan".toList else "inf".toList)

/-- Capitals for small letters. -/
def capitals (cs : List Char) : List Char := cs.map Char.toUpper

/-- A number shown as the letter of a directive asks. -/
def showNumber? (d : Directive) (letter : Char) (x : FieldValue) : Option (List Char) :=
  if letter = 'd' || letter = 'i' || letter = 'u' then (wholePart? x).map (setInteger d 10 [])
  else if letter = 'o' then (integer? x).map (setInteger d 8 ['0', 'o'])
  else if letter = 'x' then (integer? x).map (setInteger d 16 ['0', 'x'])
  else if letter = 'X' then (integer? x).map fun n => capitals (setInteger d 16 ['0', 'x'] n)
  else if letter = 'f' then (real? x).map (setReal d (fixedText d.alternate))
  else if letter = 'F' then (real? x).map fun r => capitals (setReal d (fixedText d.alternate) r)
  else if letter = 'e' then (real? x).map (setReal d (scientificText d.alternate))
  else if letter = 'E' then (real? x).map fun r => capitals (setReal d (scientificText d.alternate) r)
  else if letter = 'g' then (real? x).map (setReal d (generalText d.alternate))
  else (real? x).map fun r => capitals (setReal d (generalText d.alternate) r)

/-- The letters for numbers. -/
def numberLetters : List Char := ['d', 'i', 'u', 'o', 'x', 'X', 'f', 'F', 'e', 'E', 'g', 'G']

/-- The code point that a value is, or that has it for a number. -/
def codePoint? (x : FieldValue) : Option CodePoint :=
  match x, integer? x with
  | _, some n => if 0 ≤ n ∧ n < 0x110000 then some (.ofNat n.toNat) else none
  | .datum (.scalar (.text [c])), none => some c
  | _, none => none

/-- A value shown as the letter of a directive asks. -/
def show? (d : Directive) (letter : CodePoint) (x : FieldValue) : Except TemplateError CodeText :=
  match letter with
  | .surrogate _ => .error .directive
  | .char letter =>
    if letter = 's' then .ok (setText d (displayed x))
    else if letter = 'r' then .ok (setText d (Text.codes (shown x)))
    else if letter = 'a' then .ok (setText d (Text.codes (inAscii (shown x))))
    else if letter ∈ numberLetters then
      match showNumber? d letter x with
      | some cs => .ok (cs.map .char)
      | none => .error .arguments
    else if letter = 'c' then
      match codePoint? x with
      | some c => .ok (setText { d with precision := none } [c])
      | none => .error .arguments
    else .error .directive

/-- Where the reading of a template stands. -/
inductive Reading where
  | outside
  /-- Behind the percent sign, in a name between parentheses that are open. -/
  | named (depth : Nat) (name : CodeText)
  | flags (d : Directive)
  | width (d : Directive)
  /-- Behind the point of a precision. -/
  | precision (d : Directive)
  /-- Behind a modifier of the size, which means nothing. -/
  | letter (d : Directive)

/-- The state of a template's reading: what is written so far, the arguments, and the one chosen by name
for the present directive. -/
structure Filling where
  written : CodeText := []
  arguments : Arguments
  chosen : Option FieldValue := none
  reading : Reading := .outside

namespace Filling

/-- The next argument, and the state without it. -/
def next (f : Filling) : Except TemplateError (FieldValue × Filling) :=
  match f.chosen, f.arguments with
  | some x, .byName entries _ => .ok (x, { f with chosen := none, arguments := .byName entries false })
  | some x, _ => .ok (x, { f with chosen := none })
  | none, .inTurn (x :: left) => .ok (x, { f with arguments := .inTurn left })
  | none, .inTurn [] => .error .arguments
  | none, .byName entries true => .ok (.map entries, { f with arguments := .byName entries false })
  | none, .byName _ false => .error .arguments

/-- The letter of a directive has come. -/
def finish (f : Filling) (d : Directive) (c : CodePoint) : Except TemplateError Filling :=
  f.next.bind fun (x, f) =>
    (show? d c x).map fun cs => { f with written := f.written ++ cs, reading := .outside }

/-- An argument that gives a width or a precision. -/
def measure (f : Filling) : Except TemplateError (Int × Filling) :=
  f.next.bind fun (x, f) =>
    match integer? x with
    | some n => .ok (n, f)
    | none => .error .arguments

/-- A character behind the width or the precision of a directive, or one of its modifiers. -/
def behindMeasure (f : Filling) (d : Directive) (c : CodePoint) : Except TemplateError Filling :=
  if c = 'h' || c = 'l' || c = 'L' then .ok { f with reading := .letter d } else f.finish d c

/-- A character that is no flag. -/
def behindFlags (f : Filling) (d : Directive) (c : CodePoint) : Except TemplateError Filling :=
  if c = '*' then
    f.measure.map fun (n, f) =>
      { f with reading := .letter { d with width := n.natAbs, left := d.left || n < 0 } }
  else if c = '.' then .ok { f with reading := .precision { d with precision := some 0 } }
  else match c.figure? with
    | some n => .ok { f with reading := .width { d with width := n } }
    | none => f.behindMeasure d c

/-- A character of a name between parentheses, `depth` of which are open within it. -/
def inName (f : Filling) (depth : Nat) (name : CodeText) (c : CodePoint) : Except TemplateError Filling :=
  if c = ')' && depth = 0 then
    match f.arguments with
    | .byName entries _ =>
      match entries.lookup name with
      | some x => .ok { f with chosen := some x, reading := .flags {} }
      | none => .error .name
    | .inTurn _ => .error .arguments
  else
    let depth := if c = '(' then depth + 1 else if c = ')' then depth - 1 else depth
    .ok { f with reading := .named depth (name ++ [c]) }

/-- A character behind the percent sign or behind flags. -/
def inFlags (f : Filling) (d : Directive) (c : CodePoint) : Except TemplateError Filling :=
  if c = '(' && f.chosen.isNone then
    match f.arguments with
    | .byName .. => .ok { f with reading := .named 0 [] }
    | .inTurn _ => .error .arguments
  else if c = '%' && f.chosen.isNone && d = {} then
    .ok { f with written := f.written ++ [.char '%'], reading := .outside }
  else if c = '#' then .ok { f with reading := .flags { d with alternate := true } }
  else if c = '0' then .ok { f with reading := .flags { d with zeros := true } }
  else if c = '-' then .ok { f with reading := .flags { d with left := true } }
  else if c = ' ' then .ok { f with reading := .flags { d with blank := true } }
  else if c = '+' then .ok { f with reading := .flags { d with sign := true } }
  else f.behindFlags d c

/-- The state behind one more character. -/
def step (f : Filling) (c : CodePoint) : Except TemplateError Filling :=
  match f.reading with
  | .outside =>
    if c = '%' then .ok { f with reading := .flags {}, chosen := none }
    else .ok { f with written := f.written ++ [c] }
  | .named depth name => f.inName depth name c
  | .flags d => f.inFlags d c
  | .width d =>
    if c = '.' then .ok { f with reading := .precision { d with precision := some 0 } }
    else match c.figure? with
      | some n => .ok { f with reading := .width { d with width := 10 * d.width + n } }
      | none => f.behindMeasure d c
  | .precision d =>
    if c = '*' then
      f.measure.map fun (n, f) => { f with reading := .letter { d with precision := some n.toNat } }
    else match c.figure? with
      | some n => .ok { f with reading := .precision { d with precision := some (10 * d.precision.getD 0 + n) } }
      | none => f.behindMeasure d c
  | .letter d =>
    if c = '.' && d.precision.isNone then .ok { f with reading := .precision { d with precision := some 0 } }
    else f.behindMeasure d c

end Filling

/-- The template filled with the arguments, all of which must be used. -/
def fill (template : CodeText) (arguments : Arguments) : Except TemplateError CodeText :=
  (template.foldlM Filling.step { arguments : Filling }).bind fun f =>
    match f.reading, f.arguments with
    | .outside, .inTurn (_ :: _) => .error .arguments
    | .outside, _ => .ok f.written
    | .named .., _ => .error .directive
    | _, _ => .error .directive

/-- The message of a template and its arguments. A single map that is not empty is taken by name. -/
def messageOf (template : CodeText) (arguments : List FieldValue) : Except TemplateError CodeText :=
  match arguments with
  | [] => .ok template
  | [.map (entry :: entries)] => fill template (.byName (entry :: entries) true)
  | arguments => fill template (.inTurn arguments)

end ForwardChaining.Log
