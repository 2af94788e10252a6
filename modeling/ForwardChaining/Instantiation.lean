import ForwardChaining.Rule
import ForwardChaining.Unification

/-!
# Instantiating rules

The antecedents of a rule are matched in order, each against every fact, with the bindings of those
before it. Every fact opens a branch of its own, so that what a failed attempt has bound is not seen by
any other. A branch that comes to the end of the antecedents is an instantiation of the rule, and the
consequent under its bindings is derived if it is ground and discarded if a variable remains.

Branches that end at an occurrence check are kept in the enumeration, since they are reported.
-/

namespace ForwardChaining

/-- A variable that was not bound to a term because it occurs in that term. -/
structure Rejection where
  name : String
  term : Term

/-- The ends of all branches of the search, in order: complete instantiations and rejected bindings. -/
def attempts (facts : List Atom) : List Atom → Substitution → List (Except Rejection Substitution)
  | [], S => [.ok S]
  | a :: rest, S => facts.flatMap fun f =>
    match unify a.toTerm f.toTerm S with
    | ⟨.unified, S'⟩ => attempts facts rest S'
    | ⟨.occurs v t, _⟩ => [.error ⟨v, t⟩]
    | _ => []

/-- The value of an attempt that was completed. -/
def completed? : Except Rejection Substitution → Option Substitution
  | .ok S => some S
  | .error _ => none

/-- What is met when a rule is tried on facts. -/
inductive Finding where
  | derived (fact : Atom)
  /-- The consequent still has a variable under an instantiation. -/
  | discarded (candidate : Atom)
  | rejected (r : Rejection)

namespace Finding

/-- The fact of a finding that derives one. -/
def derived? : Finding → Option Atom
  | .derived a => some a
  | _ => none

end Finding

namespace Rule

/-- The substitutions under which every antecedent matches a fact, starting from `S`. -/
def instances (r : Rule) (facts : List Atom) (S : Substitution) : List Substitution :=
  (attempts facts r.antecedents S).filterMap completed?

/-- What one end of the search means for the consequent. -/
def findingOf (r : Rule) : Except Rejection Substitution → Finding
  | .error e => .rejected e
  | .ok S =>
    let candidate := S.applyAtom r.consequent
    if candidate.isGround then .derived candidate else .discarded candidate

/-- Everything that trying the rule on the facts meets, in order. -/
def findings (r : Rule) (facts : List Atom) : List Finding :=
  (attempts facts r.antecedents .empty).map r.findingOf

/-- The facts that the rule derives from the given ones, once for each instantiation. -/
def derive (r : Rule) (facts : List Atom) : List Atom := (r.findings facts).filterMap Finding.derived?

end Rule

end ForwardChaining
