import ForwardChaining.Notation.Token
import ForwardChaining.Rule

/-!
# Reading terms, facts and rules

A knowledge base is written in this grammar, in which a dot may end what is read:

    Term  ::=  VAR  |  STRING  |  IDENT  |  IDENT ( [Term , … , Term] )
    Fact  ::=  IDENT  |  IDENT ( [Term , … , Term] )
    Rule  ::=  [Fact , … , Fact] => Fact

An identifier without parentheses is a constant as a term, and an atom without arguments as a fact.

The reader takes one token at a time. Its state says which argument lists are open, with the arguments
that they have so far, and what may come next; no token is looked at twice, and a token that no
continuation could make right is refused when it comes.
-/

namespace ForwardChaining.Notation

/-- What is to be read. -/
inductive Goal where
  | term
  | fact
  | rule
deriving DecidableEq

/-- The type of what is read. -/
abbrev Goal.Result : Goal → Type
  | .term => Term
  | .fact => Atom
  | .rule => Rule

/-- What is wrong with a text. -/
inductive Problem where
  /-- No lexeme begins with the character. -/
  | strayCharacter (c : Char)
  | endOfInput
  | expected (kind : TokenKind) (got : List Char)
  | expectedTerm (got : List Char)
  | expectedPredicate (got : Option (List Char))
  | unexpected (got : List Char)

/-- An argument list that is open: its functor and the arguments so far, the last one first. -/
structure Frame where
  functor : String
  argsReversed : List Term

/-- How far the reading has come outside all parentheses. -/
inductive Stage : Goal → Type where
  | term : Stage .term
  | fact : Stage .fact
  /-- Before the first antecedent, or before the arrow of a rule that has none. -/
  | ruleStart : Stage .rule
  /-- Behind a comma: one more antecedent must follow. -/
  | antecedent (before : List Atom) : Stage .rule
  /-- Behind an antecedent. -/
  | arrow (antecedents : List Atom) : Stage .rule
  | consequent (antecedents : List Atom) : Stage .rule
  /-- Everything was read, and a dot may follow. -/
  | complete {g : Goal} (result : g.Result) : Stage g
  /-- The dot was read. -/
  | closed {g : Goal} (result : g.Result) : Stage g

/-- Where the reading stands in the innermost argument list. -/
inductive Place where
  /-- Behind the opening parenthesis. -/
  | first
  /-- Behind a comma: one more argument must follow. -/
  | next
  /-- Behind an identifier, which a list of arguments may follow. -/
  | name (f : String)
  /-- Behind an argument. -/
  | after

/-- The state of the reader. -/
inductive State (g : Goal) where
  | top (stage : Stage g)
  /-- Behind an identifier, which a list of arguments may follow. -/
  | name (stage : Stage g) (f : String)
  | inside (stage : Stage g) (outer : List Frame) (inner : Frame) (place : Place)

/-- The state before anything was read. -/
def State.start : (g : Goal) → State g
  | .term => .top .term
  | .fact => .top .fact
  | .rule => .top .ruleStart

/-- The stage behind an atom. -/
def Stage.receive {g : Goal} (a : Atom) : Stage g → Stage g
  | .term => .complete a.toTerm
  | .fact => .complete a
  | .ruleStart => .arrow [a]
  | .antecedent before => .arrow (before ++ [a])
  | .consequent antecedents => .complete (g := .rule) { antecedents, consequent := a }
  | stage => stage

/-- The stage behind an identifier that no list of arguments follows. -/
def Stage.receiveName {g : Goal} (f : String) : Stage g → Stage g
  | .term => .complete (g := .term) (.const (.text f))
  | stage => stage.receive ⟨f, []⟩

namespace Frame

/-- The frame with one argument more. -/
def push (frame : Frame) (t : Term) : Frame := { frame with argsReversed := t :: frame.argsReversed }

/-- The atom that a closed frame stands for. -/
def atom (frame : Frame) : Atom := ⟨frame.functor, frame.argsReversed.reverse⟩

end Frame

/-- The state behind the parenthesis that closes the innermost argument list. -/
def State.close {g : Goal} (stage : Stage g) : List Frame → Frame → State g
  | [], inner => .top (stage.receive inner.atom)
  | frame :: outer, inner => .inside stage outer (frame.push inner.atom.toTerm) .after

/-- The term that a token stands for by itself, if it is a variable or a quotation. -/
def Token.term? (token : Token) : Option Term :=
  match token.kind with
  | .variableName => some (.var (String.ofList (token.text.drop 1)))
  | .quotation => some (.const (.text (String.ofList (unquote token.text))))
  | _ => none

/-- The name that an identifier stands for. -/
def Token.name (token : Token) : String := String.ofList token.text

/-- A token outside all parentheses. -/
def Stage.step {g : Goal} (stage : Stage g) (token : Token) : Except Problem (State g) :=
  match stage with
  | .term =>
    match token.term?, token.kind with
    | some t, _ => .ok (.top (.complete (g := .term) t))
    | none, .identifier => .ok (.name .term token.name)
    | none, _ => .error (.expectedTerm token.text)
  | .complete result =>
    match token.kind with
    | .dot => .ok (.top (.closed result))
    | _ => .error (.unexpected token.text)
  | .closed _ => .error (.unexpected token.text)
  | .arrow antecedents =>
    match token.kind with
    | .comma => .ok (.top (.antecedent antecedents))
    | .arrow => .ok (.top (.consequent antecedents))
    | _ => .error (.expected .arrow token.text)
  | .ruleStart =>
    match token.kind with
    | .arrow => .ok (.top (.consequent []))
    | .identifier => .ok (.name .ruleStart token.name)
    | _ => .error (.expectedPredicate token.text)
  | stage =>
    match token.kind with
    | .identifier => .ok (.name stage token.name)
    | _ => .error (.expectedPredicate token.text)

/-- A token with which an argument must begin. -/
def stepArgument {g : Goal} (stage : Stage g) (outer : List Frame) (inner : Frame) (token : Token) :
    Except Problem (State g) :=
  match token.term?, token.kind with
  | some t, _ => .ok (.inside stage outer (inner.push t) .after)
  | none, .identifier => .ok (.inside stage outer inner (.name token.name))
  | none, _ => .error (.expectedTerm token.text)

/-- A token behind an argument. -/
def stepAfter {g : Goal} (stage : Stage g) (outer : List Frame) (inner : Frame) (token : Token) :
    Except Problem (State g) :=
  match token.kind with
  | .comma => .ok (.inside stage outer inner .next)
  | .closing => .ok (.close stage outer inner)
  | _ => .error (.expected .closing token.text)

/-- One token more. -/
def State.step {g : Goal} (state : State g) (token : Token) : Except Problem (State g) :=
  match state with
  | .top stage => stage.step token
  | .name stage f =>
    match token.kind with
    | .opening => .ok (.inside stage [] ⟨f, []⟩ .first)
    | _ => (stage.receiveName f).step token
  | .inside stage outer inner .first =>
    match token.kind with
    | .closing => .ok (.close stage outer inner)
    | _ => stepArgument stage outer inner token
  | .inside stage outer inner .next => stepArgument stage outer inner token
  | .inside stage outer inner (.name f) =>
    match token.kind with
    | .opening => .ok (.inside stage (inner :: outer) ⟨f, []⟩ .first)
    | _ => stepAfter stage outer (inner.push (.const (.text f))) token
  | .inside stage outer inner .after => stepAfter stage outer inner token

/-- No token more: what was read, if it is complete. -/
def Stage.finish {g : Goal} : Stage g → Except Problem g.Result
  | .complete result => .ok result
  | .closed result => .ok result
  | .term => .error .endOfInput
  | .arrow _ => .error .endOfInput
  | _ => .error (.expectedPredicate none)

/-- No token more: what was read, if it is complete. -/
def State.finish {g : Goal} : State g → Except Problem g.Result
  | .top stage => stage.finish
  | .name stage f => (stage.receiveName f).finish
  | .inside .. => .error .endOfInput

/-- Read the tokens from a state on. A problem comes with the position of the token that is refused, or
without one if the tokens came to an end. -/
def State.read {g : Goal} : State g → List Token → Except (Problem × Option Nat) g.Result
  | state, [] =>
    match state.finish with
    | .ok result => .ok result
    | .error problem => .error (problem, none)
  | state, token :: rest =>
    match state.step token with
    | .ok next => next.read rest
    | .error problem => .error (problem, some token.position)

/-- Read a sequence of tokens. -/
def readTokens (g : Goal) (tokens : List Token) : Except (Problem × Option Nat) g.Result :=
  (State.start g).read tokens

/-! ### Texts -/

/-- What is wrong with a text, and where. -/
structure ParseError where
  problem : Problem
  text : List Char
  position : Option Nat

/-- The message for a problem. -/
def Problem.message : Problem → String
  | .strayCharacter c => "Unexpected character " ++ Text.quote (String.ofList [c])
  | .endOfInput => "Unexpected end of input"
  | .expected kind got => "Expected " ++ kind.word ++ ", got " ++ Text.quote (String.ofList got)
  | .expectedTerm got => "Expected a term, got " ++ Text.quote (String.ofList got)
  | .expectedPredicate none => "Expected a predicate"
  | .expectedPredicate (some got) => "Expected a predicate, got " ++ Text.quote (String.ofList got)
  | .unexpected got => "Unexpected " ++ Text.quote (String.ofList got)

/-- The message for an error: the problem, its position if it has one, and the text unless that is
empty and the position missing. -/
def ParseError.message (e : ParseError) : String :=
  let text := Text.quote (String.ofList e.text)
  match e.position with
  | some p => e.problem.message ++ " at position " ++ toString p ++ " in " ++ text
  | none => if e.text.isEmpty then e.problem.message else e.problem.message ++ " in " ++ text

/-- The tokens of a text. -/
def tokensOf (cs : List Char) : Except ParseError (List Token) :=
  match scan cs with
  | .ok tokens => .ok tokens
  | .error p => .error ⟨.strayCharacter (cs[p]?.getD ' '), cs, some p⟩

/-- Read the tokens of a text. -/
def parseTokens (g : Goal) (cs : List Char) (tokens : List Token) : Except ParseError g.Result :=
  match readTokens g tokens with
  | .ok result => .ok result
  | .error (problem, position) => .error ⟨problem, cs, position⟩

/-- Read a text. -/
def parse (g : Goal) (cs : List Char) : Except ParseError g.Result :=
  match tokensOf cs with
  | .error e => .error e
  | .ok tokens => parseTokens g cs tokens

/-- Read a term. -/
def parseTerm (text : String) : Except ParseError Term := parse .term text.toList

/-- Read a fact. Variables are not refused here. -/
def parseFact (text : String) : Except ParseError Atom := parse .fact text.toList

/-- Read a rule. -/
def parseRule (text : String) : Except ParseError Rule := parse .rule text.toList

end ForwardChaining.Notation
