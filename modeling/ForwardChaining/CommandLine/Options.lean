import ForwardChaining.Text.DecimalDigit
import ForwardChaining.Text.Quoted

/-!
# Options

The arguments of a run are options and the names of programs. An option is written in full or by any
beginning that no other option shares; its value follows it, or stands behind an equals sign in the same
argument. Two dashes alone end the options. The names of programs stand together: those that come after
an option behind the first of them belong to nothing, and the arguments are refused.

Every argument is first looked at by itself, and then they are taken in order, so that an ambiguous one is
refused before anything else.
-/

namespace ForwardChaining.CommandLine

/-- An option. -/
inductive Opt where
  | help
  | demo
  | maxIterations
  | config
  | logLevel
  | jsonLogs
  | strict
deriving DecidableEq

namespace Opt

/-- The spellings of the options, in order. -/
def spellings : List (String × Opt) :=
  [("-h", help), ("--help", help), ("--demo", demo), ("--max-iterations", maxIterations),
   ("--config", config), ("--log-level", logLevel), ("--json-logs", jsonLogs), ("--strict", strict)]

/-- The name by which messages call an option. -/
def name : Opt → String
  | help => "-h/--help"
  | demo => "--demo"
  | maxIterations => "--max-iterations"
  | config => "--config"
  | logLevel => "--log-level"
  | jsonLogs => "--json-logs"
  | strict => "--strict"

/-- Whether an option has a value. -/
def takesValue : Opt → Bool
  | maxIterations | config | logLevel => true
  | _ => false

end Opt

/-- Why arguments are refused. -/
inductive UsageError where
  | ambiguous (argument : String) (meant : List String)
  | valueMissing (o : Opt)
  | valueUnwanted (o : Opt) (value : String)
  | notAnInteger (value : String)
  | unrecognized (arguments : List String)

/-- Texts with a separator between neighbours. -/
def separated (separator : String) : List String → String
  | [] => ""
  | [s] => s
  | s :: t :: rest => s ++ separator ++ separated separator (t :: rest)

/-- The message for arguments that are refused. -/
def UsageError.message : UsageError → String
  | ambiguous argument found =>
    "ambiguous option: " ++ argument ++ " could match " ++ separated ", " found
  | valueMissing o => "argument " ++ o.name ++ ": expected one argument"
  | valueUnwanted o value =>
    "argument " ++ o.name ++ ": ignored explicit argument " ++ Text.quote value
  | notAnInteger value =>
    "argument " ++ Opt.maxIterations.name ++ ": invalid int value: " ++ Text.quote value
  | unrecognized arguments => "unrecognized arguments: " ++ separated " " arguments

/-- What the arguments of a run ask for. -/
structure Options where
  programs : List String := []
  demo : Bool := false
  maxIterations : Option Int := none
  config : Option String := none
  logLevel : Option String := none
  jsonLogs : Bool := false
  strict : Bool := false

/-- What the argument of an option holds besides the option. -/
inductive Rest where
  | nothing
  /-- What stands behind an equals sign. -/
  | value (s : String)
  /-- More letters behind a single dash. -/
  | letters (cs : List Char)

/-- What a single argument looks like. -/
inductive Shape where
  /-- A value, or the name of a program. -/
  | plain
  /-- The two dashes that end the options. -/
  | divider
  | option (o : Opt) (rest : Rest)
  /-- Something like an option that is none. -/
  | unknown

/-- An argument and what it looks like. -/
structure Word where
  text : String
  shape : Shape

/-- The part of a text before its first equals sign, and the part behind it, if it has one. -/
def cutAtEquals (s : String) : String × Rest :=
  let cs := s.toList
  match cs.dropWhile (· ≠ '=') with
  | [] => (s, .nothing)
  | _ :: behind => (String.ofList (cs.takeWhile (· ≠ '=')), .value (String.ofList behind))

/-- Whether a text is a negative number: a dash, figures, and a point with more figures behind it. -/
def isNegativeNumber : List Char → Bool
  | '-' :: cs =>
    let isDigit (c : Char) : Bool := (Text.digitValue? c).isSome
    match cs.dropWhile isDigit with
    | [] => !cs.isEmpty
    | '.' :: fraction => !fraction.isEmpty && fraction.all isDigit
    | _ => false
  | _ => false

/-- The options that an argument may mean without being one in full. -/
def candidates (s : String) : List (String × Shape) :=
  match s.toList with
  | '-' :: '-' :: _ =>
    let (spelled, rest) := cutAtEquals s
    (Opt.spellings.filter fun entry => spelled.toList.isPrefixOf entry.1.toList).map fun (spelling, o) =>
      (spelling, .option o rest)
  | '-' :: c :: letters =>
    (Opt.spellings.filter fun entry => entry.1 = String.ofList ['-', c]).map fun (spelling, o) =>
      (spelling, .option o (.letters letters))
  | _ => []

/-- What an argument before the divider looks like. -/
def shapeOf (s : String) : Except UsageError Shape :=
  if s.toList.head? ≠ some '-' ∨ s = "-" then .ok .plain
  else
    let (spelled, rest) := cutAtEquals s
    match Opt.spellings.lookup spelled with
    | some o => .ok (.option o rest)
    | none =>
      match candidates s with
      | [(_, shape)] => .ok shape
      | [] => if isNegativeNumber s.toList || ' ' ∈ s.toList then .ok .plain else .ok .unknown
      | found => .error (.ambiguous s (found.map Prod.fst))

/-- The arguments with what each looks like. Behind the divider all are plain. -/
def wordsOf (ended : Bool) : List String → Except UsageError (List Word)
  | [] => .ok []
  | s :: rest =>
    if ended then (wordsOf true rest).map (⟨s, .plain⟩ :: ·)
    else if s = "--" then (wordsOf true rest).map (⟨s, .divider⟩ :: ·)
    else
      match shapeOf s with
      | .error e => .error e
      | .ok shape => (wordsOf false rest).map (⟨s, shape⟩ :: ·)

/-- Where the names of programs are: still to come, at hand, or past. -/
inductive Names where
  | ahead
  /-- Whether the divider may still be among them; it is no name. -/
  | here (dividerAhead : Bool)
  | past

/-- What has been taken from the arguments. -/
structure Taken where
  options : Options := {}
  names : Names := .ahead
  extras : List String := []

/-- What arguments come to in the end. -/
inductive Wish where
  | help
  | run (options : Options)

namespace Taken

/-- Take an argument that is no option. The first divider among the names is dropped, and only that. -/
def plain (t : Taken) (s : String) : Taken :=
  let name (options : Options) (s : String) : Options := { options with programs := options.programs ++ [s] }
  match t.names with
  | .past => { t with extras := t.extras ++ [s] }
  | .ahead =>
    if s = "--" then { t with names := .here false }
    else { t with options := name t.options s, names := .here true }
  | .here dividerAhead =>
    if s = "--" && dividerAhead then { t with names := .here false }
    else { t with options := name t.options s }

/-- An option has come: the names of programs, if any have been given, are past. -/
def passNames (t : Taken) : Taken :=
  match t.names with
  | .here _ => { t with names := .past }
  | _ => t

/-- Take an option that has no value. -/
def flag (t : Taken) (o : Opt) : Taken :=
  let options := match o with
    | .demo => { t.options with demo := true }
    | .jsonLogs => { t.options with jsonLogs := true }
    | .strict => { t.options with strict := true }
    | _ => t.options
  { t.passNames with options }

/-- Take an option with its value. -/
def valued (t : Taken) (o : Opt) (value : String) : Except UsageError Taken :=
  let t := t.passNames
  match o with
  | .maxIterations =>
    match Text.integerValue? value.toList with
    | some n => .ok { t with options := { t.options with maxIterations := some n } }
    | none => .error (.notAnInteger value)
  | .config => .ok { t with options := { t.options with config := some value } }
  | .logLevel => .ok { t with options := { t.options with logLevel := some value } }
  | _ => .ok t

end Taken

/-- Letters behind the one that asks for help ask for it once more, or for nothing that matters any more;
but a value, and a dash among them, is one that nobody asked for. -/
def helpLetters : List Char → Except UsageError Wish
  | [] => .ok .help
  | 'h' :: '=' :: value => .error (.valueUnwanted .help (String.ofList value))
  | 'h' :: rest => helpLetters rest
  | '-' :: rest => .error (.valueUnwanted .help (String.ofList ('-' :: rest)))
  | _ => .ok .help

/-- Take the words in order. -/
def take (t : Taken) : List Word → Except UsageError Wish
  | [] => if t.extras.isEmpty then .ok (.run t.options) else .error (.unrecognized t.extras)
  | word :: rest =>
    match word.shape with
    | .plain | .divider => take (t.plain word.text) rest
    | .unknown => take { t.passNames with extras := t.extras ++ [word.text] } rest
    | .option o .nothing =>
      if o = .help then .ok .help
      else if !o.takesValue then take (t.flag o) rest
      else match rest with
        | ⟨value, .plain⟩ :: rest =>
          match t.valued o value with
          | .ok t => take t rest
          | .error e => .error e
        | _ => .error (.valueMissing o)
    | .option o (.value value) =>
      if !o.takesValue then .error (.valueUnwanted o value)
      else match t.valued o value with
        | .ok t => take t rest
        | .error e => .error e
    | .option _ (.letters cs) => helpLetters cs

/-- What the arguments of a run ask for. -/
def read (arguments : List String) : Except UsageError Wish := (wordsOf false arguments).bind (take {})

end ForwardChaining.CommandLine
