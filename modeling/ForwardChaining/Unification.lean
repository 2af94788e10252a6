import ForwardChaining.Substitution

/-!
# Unification

`unify x y S` extends the substitution `S`, if it can be done, so that `x` and `y` become equal when it
is applied to them. Both terms are first walked to what they stand for. An unbound variable is then
bound to the other term, unless it occurs in that term; two compound terms are unified argument by
argument, each with the bindings of those before it. A failure leaves the bindings that were made
before it was met, and says whether an occurrence was the reason.

Where both terms are compound and the right one came out of a binding, the sides change places. This
decides only which of two unbound variables is bound to the other.

The recursion goes down both terms through bindings. On acyclic substitutions it is no deeper than the
terms that `x` and `y` stand for in the end, and these are no higher than `depthBound`: a way down one of
them passes each variable at most once, and between two variables it stays in one of the given terms.
-/

namespace ForwardChaining

/-- How an attempt to unify ended. -/
inductive Verdict where
  | unified
  /-- Different constants, functors or numbers of arguments met, or a constant met a compound term. -/
  | clash
  /-- The variable would have been bound to a term in which it occurs. -/
  | occurs (v : String) (t : Term)
  /-- The bound on the depth was reached, which only cyclic bindings can bring about. -/
  | unfinished

/-- The outcome of an attempt to unify: the verdict, and the bindings as the attempt left them. -/
structure Unification where
  verdict : Verdict
  bindings : Substitution

namespace Unification

/-- Whether the terms were unified. -/
def isUnified (u : Unification) : Bool :=
  match u.verdict with
  | .unified => true
  | _ => false

end Unification

/-- Bind an unbound variable, unless it occurs in the term. -/
def Substitution.bindUnlessOccurs (S : Substitution) (v : String) (t : Term) : Unification :=
  if S.occurs v t then ⟨.occurs v t, S⟩ else ⟨.unified, S.insert v t⟩

/-- Take two lists of terms in step, each pair with the bindings of those before it, up to the first
pair that is not unified. -/
def unifyInStep (step : Term → Term → Substitution → Unification) :
    List Term → List Term → Substitution → Unification
  | [], [], S => ⟨.unified, S⟩
  | x :: xs, y :: ys, S =>
    let u := step x y S
    if u.isUnified then unifyInStep step xs ys u.bindings else u
  | _, _, S => ⟨.clash, S⟩

/-- Unification of terms of which at most the given number of functors are entered on the way down. -/
def unifyWithin : Nat → Term → Term → Substitution → Unification
  | 0, _, _, S => ⟨.unfinished, S⟩
  | depth + 1, x, y, S =>
    let x' := S.walk x
    let y' := S.walk y
    if x' == y' then ⟨.unified, S⟩
    else match x', y' with
      | .var v, t => S.bindUnlessOccurs v t
      | t, .var v => S.bindUnlessOccurs v t
      | .app f xs, .app g ys =>
        if f = g ∧ xs.length = ys.length then
          if y.isVar then unifyInStep (unifyWithin depth) ys xs S
          else unifyInStep (unifyWithin depth) xs ys S
        else ⟨.clash, S⟩
      | _, _ => ⟨.clash, S⟩

/-- A bound on the height of what two terms stand for, whatever bindings are added in unifying them. -/
def depthBound (x y : Term) (S : Substitution) : Nat :=
  let total := x.size + y.size + S.size
  total * (total + S.bindings.length + 1) + 1

/-- Unify two terms, starting from the bindings `S`. -/
def unify (x y : Term) (S : Substitution) : Unification := unifyWithin (depthBound x y S) x y S

/-- The extended substitution, if the terms can be unified. -/
def unifier? (x y : Term) (S : Substitution) : Option Substitution :=
  let u := unify x y S
  if u.isUnified then some u.bindings else none

/-- Unify pairs of terms in turn on one growing substitution, whether or not each attempt succeeds. -/
def unifyInTurn : List (Term × Term) → Substitution → List Unification
  | [], _ => []
  | (x, y) :: rest, S =>
    let u := unify x y S
    u :: unifyInTurn rest u.bindings

end ForwardChaining
