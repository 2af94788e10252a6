import ForwardChaining.Proofs.Unbounded.Reports
import ForwardChaining.Proofs.Unification.Growth

/-!
# Unification with a ground side

If one of two terms is ground, unifying them is matching: variables of the other one are bound, and they are bound to
parts of the ground one.  Let `G` be a set of ground terms that holds the arguments of its members, and let the bindings
go into `G`.  Then an attempt with one side in `G` leaves bindings into `G` and reports nothing (`unify_oneWay`).

Two points carry the induction.  Walking leads from a variable to an unbound variable or straight into `G`, so that of
two walked terms one is still in `G`; whichever it is, the arguments to be taken in step are again on one side in `G`.
And a variable does not occur in a ground term, so that no binding is rejected.  Which of the two sides is the ground one
is left open throughout, since unification may change the sides.
-/

namespace ForwardChaining

open Substitution

variable {G : Term → Prop} {S : Substitution} {x y t : Term} {v : String}

/-- A set of ground terms that holds the arguments of its members. -/
structure IsGroundSet (G : Term → Prop) : Prop where
  ground : ∀ t, G t → t.isGround = true
  arg : ∀ f args, G (.app f args) → ∀ t ∈ args, G t

/-- Every variable that is bound is bound to a term in `G`. -/
def BindsInto (G : Term → Prop) (S : Substitution) : Prop := ∀ v t, S.find? v = some t → G t

theorem bindsInto_empty (G : Term → Prop) : BindsInto G empty := fun _ _ h => absurd h (by simp)

theorem BindsInto.insert (h : BindsInto G S) (v : String) (ht : G t) : BindsInto G (S.insert v t) := by
  intro w u hw
  rw [find?_insert] at hw
  by_cases hwv : w = v
  · rw [if_pos hwv, Option.some.injEq] at hw
    exact hw ▸ ht
  · rw [if_neg hwv] at hw
    exact h w u hw

namespace IsGroundSet

theorem not_mem_var (hG : IsGroundSet G) : ¬ G (.var v) :=
  fun h => Term.isGround_iff.mp (hG.ground _ h) v (List.mem_singleton_self v)

theorem acyclic (hG : IsGroundSet G) (hS : BindsInto G S) : S.Acyclic :=
  acyclic_of_rank (fun _ => 0) fun v w ⟨t, ht, hw⟩ =>
    absurd hw (Term.isGround_iff.mp (hG.ground t (hS v t ht)) w)

theorem walk (hG : IsGroundSet G) (ht : G t) : S.walk t = t := by
  cases t with
  | var v => exact absurd ht hG.not_mem_var
  | const c => exact walk_const c
  | app f args => exact walk_app f args

theorem occurs_eq_false (hG : IsGroundSet G) (hS : BindsInto G S) (ht : G t) : S.occurs v t = false := by
  rw [(hG.acyclic hS).occurs_eq_false_iff]
  rintro ⟨w, hw, _⟩
  exact Term.isGround_iff.mp (hG.ground t ht) w hw

theorem mem_of_either_var (hG : IsGroundSet G) (h : G x ∨ G y) (hxy : Either x y (.var v) t) : G t := by
  rcases hxy with ⟨rfl, rfl⟩ | ⟨rfl, rfl⟩
  · exact h.resolve_left hG.not_mem_var
  · exact h.resolve_right hG.not_mem_var

end IsGroundSet

/-- The attempt leaves bindings into `G` and reports nothing. -/
structure OneWay (G : Term → Prop) (u : Unification) : Prop where
  into : BindsInto G u.bindings
  silent : u.reports = []

theorem unifyInStep_oneWay {step : Term → Term → Substitution → Unification}
    (hstep : ∀ x y S, BindsInto G S → G x ∨ G y → OneWay G (step x y S)) {xs ys : List Term}
    (hS : BindsInto G S) (h : (∀ x ∈ xs, G x) ∨ ∀ y ∈ ys, G y) : OneWay G (unifyInStep step xs ys S) := by
  induction xs generalizing ys S with
  | nil => cases ys <;> exact ⟨hS, rfl⟩
  | cons x xs ih =>
    cases ys with
    | nil => exact ⟨hS, rfl⟩
    | cons y ys =>
      rw [List.forall_mem_cons, List.forall_mem_cons] at h
      have hfirst := hstep x y S hS (h.imp And.left And.left)
      rw [unifyInStep_cons]
      split
      · exact ih hfirst.into (h.imp And.right And.right)
      · exact hfirst

theorem unifyWithin_oneWay (hG : IsGroundSet G) {depth : Nat} (hS : BindsInto G S) (h : G x ∨ G y) :
    OneWay G (unifyWithin depth x y S) := by
  induction depth generalizing x y S with
  | zero => exact ⟨hS, rfl⟩
  | succ depth ih =>
    have hmeet := unifyWithin_meeting depth x y S
    have hwalk : G (S.walk x) ∨ G (S.walk y) := by
      rcases h with hx | hy
      · exact .inl (by rwa [hG.walk hx])
      · exact .inr (by rwa [hG.walk hy])
    generalize unifyWithin (depth + 1) x y S = u at hmeet
    cases hmeet with
    | equal _ => exact ⟨hS, rfl⟩
    | @bound v t hxy _ _ => exact ⟨hS.insert v (hG.mem_of_either_var hwalk hxy), rfl⟩
    | refused hxy _ hoccurs =>
      rw [hG.occurs_eq_false hS (hG.mem_of_either_var hwalk hxy)] at hoccurs
      exact absurd hoccurs (by decide)
    | @args f xs ys hxy =>
      have hargs : (∀ x ∈ xs, G x) ∨ ∀ y ∈ ys, G y := by
        rcases hxy with ⟨hx, hy⟩ | ⟨hx, hy⟩ <;> rw [hx, hy] at hwalk
        · exact hwalk.imp (hG.arg f xs) (hG.arg f ys)
        · exact hwalk.symm.imp (hG.arg f xs) (hG.arg f ys)
      exact unifyInStep_oneWay (fun x y S hS h => ih hS h) hS hargs
    | clash _ => exact ⟨hS, rfl⟩

/-- **With a ground side unification is matching**: it binds variables to members of `G` and rejects no binding. -/
theorem unify_oneWay (hG : IsGroundSet G) (hS : BindsInto G S) (h : G x ∨ G y) : OneWay G (unify x y S) :=
  unifyWithin_oneWay hG hS h

end ForwardChaining
