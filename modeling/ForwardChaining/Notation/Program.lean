import ForwardChaining.Notation.Reading
import ForwardChaining.Text.Lines

/-!
# Programs

A program holds one statement on a line. A line without tokens states nothing; a line with an arrow
anywhere is read as a rule and every other as a fact. The first line that cannot be read makes the
program unreadable as a whole.
-/

namespace ForwardChaining.Notation

/-- What a line states. -/
inductive Statement where
  | fact (a : Atom)
  | rule (r : Rule)

/-- The facts and the rules of a program, in order. -/
structure Program where
  facts : List Atom
  rules : List Rule

/-- The first line that could not be read, counted from one, and what is wrong with it. -/
structure ProgramError where
  line : Nat
  error : ParseError

/-- The message for a line that could not be read. -/
def ProgramError.message (e : ProgramError) : String :=
  "Line " ++ toString e.line ++ ": " ++ e.error.message

/-- What a line states, if anything. -/
def readLine (line : List Char) : Except ParseError (Option Statement) :=
  match tokensOf line with
  | .error e => .error e
  | .ok [] => .ok none
  | .ok tokens =>
    if tokens.any fun t => t.kind = .arrow then
      (parseTokens .rule line tokens).map fun r => some (.rule r)
    else (parseTokens .fact line tokens).map fun a => some (.fact a)

/-- What the lines state, the first of them having the given number. -/
def readLines (number : Nat) : List (List Char) → Except ProgramError (List Statement)
  | [] => .ok []
  | line :: rest =>
    match readLine line with
    | .error error => .error ⟨number, error⟩
    | .ok none => readLines (number + 1) rest
    | .ok (some statement) => (readLines (number + 1) rest).map (statement :: ·)

/-- The statements by kind, each kind in order. -/
def Program.ofStatements (statements : List Statement) : Program :=
  { facts := statements.filterMap fun | .fact a => some a | .rule _ => none
    rules := statements.filterMap fun | .fact _ => none | .rule r => some r }

/-- Read a program. -/
def parseProgram (text : String) : Except ProgramError Program :=
  (readLines 1 (Text.lines text.toList)).map Program.ofStatements

end ForwardChaining.Notation
