import ForwardChaining.Instantiation
import ForwardChaining.Proofs.Unbounded.Unification

/-!
# Unification with reports

The plain recursion once more, as a procedure that only answers yes or no.  What else it does is done to a
workspace: new bindings are put among those that are there, and a binding that is rejected, because the variable
occurs in the term, is added to the reports.  Nothing is taken back on failure, so that whoever goes on with the
workspace finds all bindings and all reports of the calls before.

* `runsAlike`: where `unify` comes to an end, so does the procedure.  Its answer, the bindings that it leaves and the
  reports that it adds are those that the outcome of `unify` stands for (`Unification.leave`).

So an attempt adds one report or none, although nothing in the procedure counts them: the first report makes the call
that it comes from answer no, and with it every call around it.
-/

namespace ForwardChaining

/-- What unification works on: bindings, and the rejected bindings that were reported, in order. -/
structure Workspace where
  bindings : Substitution
  reports : List Rejection

namespace Unification

/-- The rejected binding that an attempt ended with, if it did. -/
def reports (u : Unification) : List Rejection :=
  match u.verdict with
  | .occurs v t => [⟨v, t⟩]
  | _ => []

/-- The answer of an attempt, and the workspace as the attempt leaves it, if `rs` was reported before. -/
def leave (u : Unification) (rs : List Rejection) : Bool × Workspace :=
  (u.isUnified, ⟨u.bindings, rs ++ u.reports⟩)

end Unification

namespace Unbounded

def bindOrReport (v : String) (t : Term) (w : Workspace) : Option (Bool × Workspace) := do
  if ← occurs w.bindings v t then return (false, { w with reports := w.reports ++ [⟨v, t⟩] })
  else return (true, { w with bindings := w.bindings.insert v t })

mutual
def unifyIn (x y : Term) (w : Workspace) : Option (Bool × Workspace) :=
  if x == y then some (true, w)
  else match x, y with
    | .var v, t => (unifyVarIn (w := w)) v t
    | t, .var v => (unifyVarIn (w := w)) v t
    | .app f xs, .app g ys =>
      if f = g ∧ xs.length = ys.length then (unifyPairsIn (w := w)) (xs.zip ys) else some (false, w)
    | _, _ => some (false, w)
partial_fixpoint

def unifyVarIn (v : String) (t : Term) (w : Workspace) : Option (Bool × Workspace) :=
  match w.bindings.find? v with
  | some u => (unifyIn (w := w)) u t
  | none => match t with
    | .var v' => match w.bindings.find? v' with
      | some u => (unifyIn (w := w)) (.var v) u
      | none => bindOrReport v (.var v') w
    | t => bindOrReport v t w
partial_fixpoint

/-- Unify pairs of arguments in turn, up to the first pair that fails. -/
def unifyPairsIn (pairs : List (Term × Term)) (w : Workspace) : Option (Bool × Workspace) :=
  match pairs with
  | [] => some (true, w)
  | (x, y) :: rest => do
    let (unified, w') ← (unifyIn (w := w)) x y
    if unified then (unifyPairsIn (w := w')) rest else return (false, w')
partial_fixpoint
end

/-! ### Outcomes and workspaces -/

variable {S : Substitution} {u : Unification} {rs : List Rejection} {v : String} {t : Term}

theorem leave_of_isUnified (h : u.isUnified = true) : u.leave rs = (true, ⟨u.bindings, rs⟩) := by
  obtain ⟨verdict, T⟩ := u
  cases verdict with
  | unified => rw [Unification.leave, h, Unification.reports, List.append_nil]
  | _ => exact absurd h (by simp [Unification.isUnified])

theorem leave_unified (S : Substitution) (rs : List Rejection) :
    (⟨.unified, S⟩ : Unification).leave rs = (true, ⟨S, rs⟩) := leave_of_isUnified rfl

theorem leave_clash (S : Substitution) (rs : List Rejection) :
    (⟨.clash, S⟩ : Unification).leave rs = (false, ⟨S, rs⟩) := by
  rw [Unification.leave, Unification.reports, List.append_nil]
  rfl

theorem bindOrReport_of_eq_some (h : bindUnlessOccurs v t S = some u) :
    bindOrReport v t ⟨S, rs⟩ = some (u.leave rs) := by
  rw [bindUnlessOccurs] at h
  rw [bindOrReport]
  cases hoccurs : occurs S v t with
  | none => rw [hoccurs] at h; cases h
  | some found =>
    rw [hoccurs] at h
    cases found with
    | true => cases h; rfl
    | false => cases h; rw [leave_unified]; rfl

/-- **Where unification comes to an end, so does the procedure**, with its answer, its bindings and at most one report
more. -/
theorem runsAlike :
    (∀ x y S u, unify x y S = some u → ∀ rs, unifyIn x y ⟨S, rs⟩ = some (u.leave rs)) ∧
    (∀ pairs S u, unifyPairs pairs S = some u → ∀ rs, unifyPairsIn pairs ⟨S, rs⟩ = some (u.leave rs)) ∧
    ∀ v t S u, unifyVar v t S = some u → ∀ rs, unifyVarIn v t ⟨S, rs⟩ = some (u.leave rs) := by
  refine unify.mutual_partial_correctness
    (fun x y S u => ∀ rs, unifyIn x y ⟨S, rs⟩ = some (u.leave rs))
    (fun pairs S u => ∀ rs, unifyPairsIn pairs ⟨S, rs⟩ = some (u.leave rs))
    (fun v t S u => ∀ rs, unifyVarIn v t ⟨S, rs⟩ = some (u.leave rs)) ?unify ?pairs ?var
  case unify =>
    intro pairs var ihPairs ihVar x y S u h rs
    rw [unifyIn.eq_def]
    by_cases heq : (x == y) = true
    · rw [if_pos heq] at h ⊢
      cases h
      rw [leave_unified]
    rw [if_neg heq] at h ⊢
    cases x with
    | var v => exact ihVar _ _ _ _ h rs
    | const c =>
      cases y with
      | var v => exact ihVar _ _ _ _ h rs
      | const d => cases h; rw [leave_clash]
      | app g ys => cases h; rw [leave_clash]
    | app f xs =>
      cases y with
      | var v => exact ihVar _ _ _ _ h rs
      | const d => cases h; rw [leave_clash]
      | app g ys =>
        dsimp only at h ⊢
        by_cases hfg : f = g ∧ xs.length = ys.length
        · rw [if_pos hfg] at h ⊢
          exact ihPairs _ _ _ h rs
        · rw [if_neg hfg] at h ⊢
          cases h
          rw [leave_clash]
  case pairs =>
    intro first rest ihFirst ihRest pairs S u h rs
    rw [unifyPairsIn.eq_def]
    cases pairs with
    | nil => cases h; rw [leave_unified]
    | cons pair pairs =>
      obtain ⟨x, y⟩ := pair
      dsimp only at h ⊢
      obtain ⟨u₁, hfirst, hrest⟩ := Option.bind_eq_some_iff.mp h
      rw [ihFirst _ _ _ _ hfirst rs]
      cases hunified : u₁.isUnified with
      | true =>
        rw [hunified, if_pos rfl] at hrest
        rw [leave_of_isUnified hunified]
        exact ihRest _ _ _ hrest rs
      | false =>
        rw [hunified, if_neg Bool.false_ne_true] at hrest
        cases hrest
        rw [Unification.leave, hunified]
        rfl
  case var =>
    intro unify ihUnify v t S u h rs
    rw [unifyVarIn.eq_def]
    dsimp only
    cases hv : S.find? v with
    | some s =>
      rw [hv] at h
      exact ihUnify _ _ _ _ h rs
    | none =>
      rw [hv] at h
      cases t with
      | var v' =>
        dsimp only at h ⊢
        cases hv' : S.find? v' with
        | some s =>
          rw [hv'] at h
          exact ihUnify _ _ _ _ h rs
        | none =>
          rw [hv'] at h
          exact bindOrReport_of_eq_some h
      | const c => exact bindOrReport_of_eq_some h
      | app f args => exact bindOrReport_of_eq_some h

end Unbounded

end ForwardChaining
