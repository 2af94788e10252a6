import ForwardChaining.Inference
import ForwardChaining.Proofs.Unbounded.Unification

/-!
# Saturation as a plain loop

The search, a pass and the run of passes once more, with the unification that nothing bounds and with a loop
that makes one pass after another until it finds nothing new or its number exceeds the cap.  An answer `none`
stands for a search or a loop that never ends.
-/

namespace ForwardChaining.Unbounded

/-- The ends of all branches of the search, in order. -/
def attempts (facts : List Atom) :
    List Atom → Substitution → Option (List (Except Rejection Substitution))
  | [], S => some [.ok S]
  | a :: rest, S => do
    let ends ← facts.mapM fun f => do
      let u ← unify a.toTerm f.toTerm S
      match u.verdict with
      | .unified => attempts facts rest u.bindings
      | .occurs v t => return [.error ⟨v, t⟩]
      | _ => return []
    return ends.flatten

/-- What one end of the search means for the consequent of a rule. -/
def findingOf (r : Rule) : Except Rejection Substitution → Option Finding
  | .error e => some (.rejected e)
  | .ok S => do
    let args ← r.consequent.args.mapM (apply S)
    let candidate : Atom := ⟨r.consequent.functor, args⟩
    return if candidate.isGround then .derived candidate else .discarded candidate

def findings (facts : List Atom) (r : Rule) : Option (List (Rule × Finding)) := do
  let ends ← attempts facts r.antecedents .empty
  let found ← ends.mapM (findingOf r)
  return found.map fun f => (r, f)

def pass (rules : List Rule) (number : Nat) (known : Roster Atom) : Option Pass := do
  let findings ← rules.mapM (findings known.items)
  let candidates := Roster.ofList (findings.flatten.filterMap fun f => f.2.derived?)
  return { number, findings := findings.flatten, candidates
           newFacts := sortBy Atom.display (candidates.items.filter fun a => !known.contains a) }

/-- Make passes, of which the first has the given number, until one finds nothing new or the number of the
next one exceeds the cap. -/
def saturate (rules : List Rule) (cap n : Nat) (known : Roster Atom) : Option Run :=
  if cap < n then some { known, status := .capExceeded, passes := [] }
  else do
    let pass ← pass rules n known
    let known' := known.insertAll pass.newFacts
    if pass.newFacts.isEmpty then
      return { known := known', status := .fixpoint, passes := [pass] }
    else
      let run ← (saturate (n := n + 1)) rules cap known'
      return { run with passes := pass :: run.passes }
partial_fixpoint

def infer (facts : FactStore) (rules : RuleStore) (maxIterations : Nat) : Option Inference := do
  let run ← saturate rules.items maxIterations 1 facts.roster
  return { initial := facts.roster, ruleCount := rules.size, maxIterations, run }

end ForwardChaining.Unbounded
