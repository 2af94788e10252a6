import ForwardChaining.Proofs.Unification.Growth

/-!
# Most general unifiers

Unification, started from acyclic bindings `S`, finds a most general solution of `S` and one equation.
Two facts about `unifyWithin` carry this, each by induction on the depth and along the arguments:

* `unifyWithin_apply_equiv`: after a success the bindings make the two terms equal.
* `unifyWithin_solves`: a map that solves the given bindings and makes the terms equal also solves the new
  ones, and while such a map exists the attempt does not fail.

The second says both that the bindings found are most general and that a failure is never premature.
-/

namespace ForwardChaining

open Substitution

variable {S : Substitution} {θ : String → Term}

theorem Either.equiv_iff {x y a b : Term} (h : Either x y a b) (g : Term → Term) :
    g x ≈ g y ↔ g a ≈ g b := by
  rcases h with ⟨rfl, rfl⟩ | ⟨rfl, rfl⟩
  · exact Iff.rfl
  · exact ⟨Setoid.symm, Setoid.symm⟩

/-! ### Success makes the terms equal -/

theorem unifyInStep_apply_equiv {depth : Nat}
    (hstep : ∀ x y S, Acyclic S → (unifyWithin depth x y S).isUnified = true →
      (unifyWithin depth x y S).bindings.apply x ≈ (unifyWithin depth x y S).bindings.apply y)
    {xs ys : List Term} {u : Unification} (hS : S.Acyclic)
    (hu : unifyInStep (unifyWithin depth) xs ys S = u) (h : u.isUnified = true) :
    List.Forall₂ (fun x y => u.bindings.apply x ≈ u.bindings.apply y) xs ys := by
  induction xs generalizing ys S with
  | nil =>
    cases ys with
    | nil => exact .nil
    | cons y ys => subst hu; exact absurd h (by simp [unifyInStep, Unification.isUnified])
  | cons x xs ih =>
    cases ys with
    | nil => subst hu; exact absurd h (by simp [unifyInStep, Unification.isUnified])
    | cons y ys =>
      rw [unifyInStep_cons] at hu
      split at hu
      · next hfirst =>
        have hac : (unifyWithin depth x y S).bindings.Acyclic := unifyWithin_acyclic hS
        refine .cons ?_ (ih hac hu)
        -- What made the first pair equal still does so under the bindings of the others.
        have hle : (unifyWithin depth x y S).bindings ≤ u.bindings := hu ▸ le_unifyInStep hac
        have hac' : u.bindings.Acyclic := hu ▸ unifyInStep_acyclic hac
        rw [← hac.apply_apply hac' hle x, ← hac.apply_apply hac' hle y]
        exact apply_equiv (hstep x y S hS hfirst)
      · next hfirst =>
        subst hu
        exact absurd h hfirst

theorem unifyWithin_apply_equiv {depth : Nat} {x y : Term} {u : Unification} (hS : S.Acyclic)
    (hu : unifyWithin depth x y S = u) (h : u.isUnified = true) :
    u.bindings.apply x ≈ u.bindings.apply y := by
  induction depth generalizing x y S u with
  | zero => subst hu; exact absurd h (by simp [unifyWithin, Unification.isUnified])
  | succ depth ih =>
    have hmeet := unifyWithin_meeting depth x y S
    have hS' : u.bindings.Acyclic := hu ▸ unifyWithin_acyclic hS
    have hle : S ≤ u.bindings := hu ▸ le_unifyWithin hS
    rw [← hS.apply_walk hS' hle x, ← hS.apply_walk hS' hle y]
    rw [hu] at hmeet
    clear hu
    cases hmeet with
    | equal heq => exact apply_equiv heq
    | bound hxy _ _ =>
      refine (hxy.equiv_iff _).mpr ?_
      rw [hS'.apply_of_bound (by rw [find?_insert, if_pos rfl])]
    | refused _ _ _ => exact absurd h (by simp [Unification.isUnified])
    | args hxy =>
      refine (hxy.equiv_iff _).mpr ?_
      rw [apply_app, apply_app]
      refine Term.app_equiv_app.mpr ⟨rfl, ?_⟩
      rw [List.forall₂_map_left_iff, List.forall₂_map_right_iff]
      exact unifyInStep_apply_equiv (fun x y S hS h => ih hS rfl h) hS rfl h
    | clash _ => exact absurd h (by simp [Unification.isUnified])

/-! ### Solutions are kept -/

/-- The attempt has not failed: it succeeded, or was cut off. -/
def Unification.NotFailed (u : Unification) : Prop :=
  u.isUnified = true ∨ u.verdict = .unfinished

theorem unifyInStep_solves {depth : Nat}
    (hstep : ∀ x y S, Acyclic S → Solves θ S → x.bind θ ≈ y.bind θ →
      Solves θ (unifyWithin depth x y S).bindings ∧ (unifyWithin depth x y S).NotFailed)
    {xs ys : List Term} (hS : S.Acyclic) (hθ : Solves θ S)
    (hxy : List.Forall₂ (fun x y => x.bind θ ≈ y.bind θ) xs ys) :
    Solves θ (unifyInStep (unifyWithin depth) xs ys S).bindings ∧
      (unifyInStep (unifyWithin depth) xs ys S).NotFailed := by
  induction hxy generalizing S with
  | nil => exact ⟨hθ, .inl rfl⟩
  | @cons x y xs ys hxy _ ih =>
    obtain ⟨hsolves, hnf⟩ := hstep x y S hS hθ hxy
    rw [unifyInStep_cons]
    split
    · exact ih (unifyWithin_acyclic hS) hsolves
    · exact ⟨hsolves, hnf⟩

theorem unifyWithin_solves {depth : Nat} {x y : Term} (hS : S.Acyclic) (hθ : Solves θ S)
    (hxy : x.bind θ ≈ y.bind θ) :
    Solves θ (unifyWithin depth x y S).bindings ∧ (unifyWithin depth x y S).NotFailed := by
  induction depth generalizing x y S with
  | zero => exact ⟨hθ, .inr rfl⟩
  | succ depth ih =>
    have hmeet := unifyWithin_meeting depth x y S
    have hwalk : (S.walk x).bind θ ≈ (S.walk y).bind θ :=
      Setoid.trans (hθ.bind_walk hS x) (Setoid.trans hxy (Setoid.symm (hθ.bind_walk hS y)))
    generalize unifyWithin (depth + 1) x y S = u at hmeet
    cases hmeet with
    | equal _ => exact ⟨hθ, .inl rfl⟩
    | bound h _ _ => exact ⟨hθ.insert ((h.equiv_iff (Term.bind θ)).mp hwalk), .inl rfl⟩
    | @refused v t h hne ho =>
      exfalso
      have hv : S.find? v = none := h.find?_eq_none hS
      have hreach : S.Reaches t v := hS.occurs_iff.mp ho
      have hvt : θ v ≈ t.bind θ := (h.equiv_iff (Term.bind θ)).mp hwalk
      cases t with
      | var w =>
        -- `w` was walked to as well, so it is unbound and reaches nothing but itself.
        have hw : S.find? w = none := by
          rcases h with ⟨_, h⟩ | ⟨h, _⟩ <;> exact hS.find?_of_walk_eq_var h
        rw [(reaches_var_iff_of_unbound hw).mp hreach] at hne
        exact hne (Setoid.refl _)
      | const c => exact not_reaches_const hreach
      | app f args => exact hθ.not_equiv_of_reaches hS hv hreach hvt
    | args h =>
      have hargs := (h.equiv_iff (Term.bind θ)).mp hwalk
      rw [Term.bind_app, Term.bind_app] at hargs
      have hargs := (Term.app_equiv_app.mp hargs).2
      rw [List.forall₂_map_left_iff, List.forall₂_map_right_iff] at hargs
      exact unifyInStep_solves (fun x y S hS hθ hxy => ih hS hθ hxy) hS hθ hargs
    | clash h => exact absurd hwalk (h θ)

/-- **A solution that makes the terms equal survives unification**, and then unification succeeds. -/
theorem unify_solves {x y : Term} (hS : S.Acyclic) (hθ : Solves θ S) (hxy : x.bind θ ≈ y.bind θ) :
    (unify x y S).isUnified = true ∧ Solves θ (unify x y S).bindings := by
  have h : Solves θ (unify x y S).bindings ∧ (unify x y S).NotFailed := unifyWithin_solves hS hθ hxy
  obtain ⟨hsolves, hok | hun⟩ := h
  · exact ⟨hok, hsolves⟩
  · exact absurd hun (unify_verdict_ne_unfinished hS)

theorem unify_apply_equiv {x y : Term} (hS : S.Acyclic) (h : (unify x y S).isUnified = true) :
    (unify x y S).bindings.apply x ≈ (unify x y S).bindings.apply y :=
  unifyWithin_apply_equiv hS rfl h

/-- **Unification computes a most general unifier relative to the bindings it starts from, and fails only
when there is none.**  After a success the bindings make the terms equal; read as a map they solve the
bindings they grew from; and they are solved by every map that solves those and makes the terms equal.
After a failure there is no such map. -/
theorem unify_mostGeneral (x y : Term) (S : Substitution) (hS : S.Acyclic) :
    ((unify x y S).isUnified = true →
      (unify x y S).bindings.apply x ≈ (unify x y S).bindings.apply y ∧
      Solves (fun v => (unify x y S).bindings.apply (.var v)) S ∧
      ∀ θ, Solves θ S → x.bind θ ≈ y.bind θ → Solves θ (unify x y S).bindings) ∧
    ((unify x y S).isUnified = false → ∀ θ, Solves θ S → ¬ x.bind θ ≈ y.bind θ) := by
  constructor
  · intro hok
    refine ⟨unify_apply_equiv hS hok, solves_apply (unify_acyclic hS) (le_unify hS), ?_⟩
    exact fun θ hθ hxy => (unify_solves hS hθ hxy).2
  · intro hfail θ hθ hxy
    have hok := (unify_solves hS hθ hxy).1
    rw [hfail] at hok
    exact absurd hok (by decide)

/-- A success through a chain of bindings, and a failure because a variable would stand for a term in which
it occurs. -/
theorem unify_mostGeneral_chain :
    (empty.insert "Z" (.app "f" [.var "X"])).Acyclic ∧
    ((unify (.app "p" [.var "Z", .var "Y"]) (.app "p" [.var "Y", .app "f" [.const (.int 1)]])
        (empty.insert "Z" (.app "f" [.var "X"]))).isUnified = true ∧
      ∀ θ, Solves θ (empty.insert "Z" (.app "f" [.var "X"])) →
        (Term.app "p" [.var "Z", .var "Y"]).bind θ ≈
          (Term.app "p" [.var "Y", .app "f" [.const (.int 1)]]).bind θ →
        Solves θ (unify (.app "p" [.var "Z", .var "Y"])
          (.app "p" [.var "Y", .app "f" [.const (.int 1)]])
          (empty.insert "Z" (.app "f" [.var "X"]))).bindings) ∧
    (unify (.var "X") (.var "Z") (empty.insert "Z" (.app "f" [.var "X"]))).isUnified = false ∧
      ∀ θ, Solves θ (empty.insert "Z" (.app "f" [.var "X"])) →
        ¬ (Term.var "X").bind θ ≈ (Term.var "Z").bind θ := by
  have hS : (empty.insert "Z" (.app "f" [.var "X"])).Acyclic :=
    acyclic_empty.insert (acyclic_empty.occurs_eq_false_iff.mp (by decide))
  have hok : (unify (.app "p" [.var "Z", .var "Y"]) (.app "p" [.var "Y", .app "f" [.const (.int 1)]])
      (empty.insert "Z" (.app "f" [.var "X"]))).isUnified = true := by decide
  have hfail : (unify (.var "X") (.var "Z")
      (empty.insert "Z" (.app "f" [.var "X"]))).isUnified = false := by decide
  exact ⟨hS, ⟨hok, ((unify_mostGeneral _ _ _ hS).1 hok).2.2⟩, hfail,
    (unify_mostGeneral _ _ _ hS).2 hfail⟩

end ForwardChaining
