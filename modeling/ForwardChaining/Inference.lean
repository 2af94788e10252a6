import ForwardChaining.Instantiation
import ForwardChaining.Sorting
import ForwardChaining.Store
import ForwardChaining.Term.Display

/-!
# Saturation

Facts are saturated in passes. A pass tries every rule on the facts known at its start; what it derives
becomes known to the next one. Passes go on until one of them derives nothing new, and then the facts
are closed under the rules, or until the cap on their number is reached, and then nothing is known about
what is still to come: a run that becomes closed in its last permitted pass still counts as capped,
because the pass that would have seen this was not made.
-/

namespace ForwardChaining

/-- How a run of passes ended. -/
inductive Status where
  /-- A pass derived nothing new. -/
  | fixpoint
  /-- The cap on the number of passes was reached. -/
  | capExceeded
deriving DecidableEq

/-- The word for a status. -/
def Status.word : Status → String
  | .fixpoint => "fixpoint"
  | .capExceeded => "iteration_cap_exceeded"

/-- What one pass over the rules met and derived. -/
structure Pass where
  /-- The passes of a run are numbered from one. -/
  number : Nat
  /-- The findings, each with its rule, in order. -/
  findings : List (Rule × Finding)
  /-- The derived facts, known ones included, each once. -/
  candidates : Roster Atom
  /-- The derived facts that were not known, in the order of their displays. -/
  newFacts : List Atom

/-- One pass of the rules over the known facts. -/
def Pass.run (rules : List Rule) (number : Nat) (known : Roster Atom) : Pass :=
  let findings := rules.flatMap fun r => (r.findings known.items).map fun f => (r, f)
  let candidates := Roster.ofList (findings.filterMap fun f => f.2.derived?)
  { number, findings, candidates
    newFacts := sortBy Atom.display (candidates.items.filter fun a => !known.contains a) }

/-- A run of passes: the facts known at its end, how it ended, and its passes. -/
structure Run where
  known : Roster Atom
  status : Status
  passes : List Pass

/-- Make at most `left` more passes, of which the first has the given number. -/
def saturate (rules : List Rule) : Nat → Nat → Roster Atom → Run
  | 0, _, known => { known, status := .capExceeded, passes := [] }
  | left + 1, number, known =>
    let pass := Pass.run rules number known
    let known' := known.insertAll pass.newFacts
    if pass.newFacts.isEmpty then { known := known', status := .fixpoint, passes := [pass] }
    else
      let run := saturate rules left (number + 1) known'
      { run with passes := pass :: run.passes }

/-- The outcome of an inference. -/
structure Inference where
  /-- The facts it started from. -/
  initial : Roster Atom
  ruleCount : Nat
  maxIterations : Nat
  run : Run

/-- Saturate the facts of a store under the rules of another, in at most `maxIterations` passes. -/
def infer (facts : FactStore) (rules : RuleStore) (maxIterations : Nat) : Inference :=
  { initial := facts.roster, ruleCount := rules.size, maxIterations
    run := saturate rules.items maxIterations 1 facts.roster }

namespace Inference

/-- The final facts. -/
def facts (i : Inference) : List Atom := i.run.known.items

/-- How the inference ended. -/
def status (i : Inference) : Status := i.run.status

/-- The passes that were made. -/
def passes (i : Inference) : List Pass := i.run.passes

/-- The number of passes that were made. -/
def iterations (i : Inference) : Nat := i.passes.length

/-- The final facts that are not among the initial ones. -/
def derived (i : Inference) : List Atom := i.facts.filter fun a => !i.initial.contains a

/-- Whether an atom is among the final facts. -/
def contains (i : Inference) (a : Atom) : Bool := i.run.known.contains a

/-- Whether the final facts are closed under the rules. -/
def reachedFixpoint (i : Inference) : Bool := i.status = .fixpoint

end Inference

/-- The complaint about an inference that was capped, for a caller who needs closed facts. -/
structure Unfinished where
  maxIterations : Nat
  facts : Nat

/-- The message of the complaint. -/
def Unfinished.message (u : Unfinished) : String :=
  "Inference stopped after " ++ toString u.maxIterations
    ++ " iterations without reaching a fixpoint (" ++ toString u.facts ++ " facts known)"

/-- The complaint that an inference gives rise to, if any. -/
def Inference.unfinished? (i : Inference) : Option Unfinished :=
  if i.reachedFixpoint then none else some { maxIterations := i.maxIterations, facts := i.facts.length }

end ForwardChaining
