import ForwardChaining.Cap
import ForwardChaining.Event
import ForwardChaining.Notation.Program

/-!
# Engines

An engine holds facts and rules and a cap on the number of passes. Facts and rules are added one by one
or as programs, which are read as a whole before any of their statements is added. An inference leaves
the engine as it is: what it derives is part of its outcome only.
-/

namespace ForwardChaining

/-- A store of facts, a store of rules, and a cap on the number of passes. -/
structure Engine where
  facts : FactStore := .empty
  rules : RuleStore := .empty
  cap : Cap := .standard

namespace Engine

/-- The engine with an atom added to its facts, unless the atom has a variable; the refusal is an
event. -/
def addFact (e : Engine) (a : Atom) : Engine × List Event :=
  match e.facts.add? a with
  | some facts => ({ e with facts }, [])
  | none => (e, [.factRejected a.display])

/-- The engine with a rule added. A rule that is new and can never derive a fact is an event. -/
def addRule (e : Engine) (r : Rule) : Engine × List Event :=
  ({ e with rules := e.rules.insert r },
    if e.rules.contains r || r.unboundVars.isEmpty then [] else [.deadRule r])

/-- The engine with atoms added to its facts in turn. -/
def addFacts (e : Engine) : List Atom → Engine × List Event
  | [] => (e, [])
  | a :: rest =>
    let (e', events) := e.addFact a
    let (e'', more) := e'.addFacts rest
    (e'', events ++ more)

/-- The engine with rules added in turn. -/
def addRules (e : Engine) : List Rule → Engine × List Event
  | [] => (e, [])
  | r :: rest =>
    let (e', events) := e.addRule r
    let (e'', more) := e'.addRules rest
    (e'', events ++ more)

/-- The engine with the facts of a program added, and then its rules. -/
def addStatements (e : Engine) (p : Notation.Program) : Engine × List Event :=
  let (e', events) := e.addFacts p.facts
  let (e'', more) := e'.addRules p.rules
  (e'', events ++ more)

/-- The engine with a program added, if all its lines can be read. -/
def addProgram (e : Engine) (text : String) : Except Notation.ProgramError (Engine × List Event) :=
  (Notation.parseProgram text).map e.addStatements

/-- The engine without its facts and rules. -/
def reset (e : Engine) : Engine := { e with facts := .empty, rules := .empty }

/-- Saturate the facts. -/
def infer (e : Engine) : Inference := ForwardChaining.infer e.facts e.rules e.cap.val

/-- The display of an engine: how much it holds. -/
def display (e : Engine) : String :=
  "ForwardChainingEngine: " ++ toString e.facts.size ++ " facts, " ++ toString e.rules.size ++ " rules"

/-- An engine that knows the philosophers: who is human, who taught whom, and that humans are mortal. -/
def philosophers (cap : Cap) : Engine :=
  let socrates := Term.const (.text "Socrates")
  let plato := Term.const (.text "Plato")
  let aristotle := Term.const (.text "Aristotle")
  let x := Term.var "X"
  let y := Term.var "Y"
  let facts : List Atom :=
    [⟨"human", [socrates]⟩, ⟨"human", [plato]⟩, ⟨"philosopher", [socrates]⟩,
     ⟨"teacherOf", [socrates, plato]⟩, ⟨"teacherOf", [plato, aristotle]⟩]
  let rules : List Rule :=
    [⟨[⟨"human", [x]⟩], ⟨"mortal", [x]⟩, "mortality"⟩,
     ⟨[⟨"philosopher", [x]⟩], ⟨"human", [x]⟩, "philosophers are human"⟩,
     ⟨[⟨"teacherOf", [x, y]⟩], ⟨"studentOf", [y, x]⟩, "student of teacher"⟩]
  ({ cap : Engine }.addStatements { facts, rules }).1

end Engine

end ForwardChaining
