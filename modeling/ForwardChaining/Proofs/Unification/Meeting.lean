import ForwardChaining.Proofs.Substitution.Solution
import ForwardChaining.Unification

/-!
# What happens when two terms meet

A call of `unifyWithin` walks its two terms and then does one of five things: it finds them equal, binds a
variable, refuses to bind it, takes two lists of arguments in step, or finds that nothing can make the
terms equal.  `Meeting` lists these cases, and `unifyWithin_meeting` says that there are no others.  The
proofs about unification are case analyses on it and do not open the definition.

Which of the two terms came first matters only for the choice between two unbound variables, so `Meeting`
leaves the order open where it can (`Either`).
-/

namespace ForwardChaining

/-- The terms `x` and `y` are `a` and `b`, in one order or the other. -/
def Either (x y a b : Term) : Prop := (x = a ∧ y = b) ∨ (x = b ∧ y = a)

/-- What comes of two walked terms under the bindings `S`, where `step` takes their arguments. -/
inductive Meeting (step : Term → Term → Substitution → Unification) (S : Substitution)
    (x y : Term) : Unification → Prop
  | equal : x ≈ y → Meeting step S x y ⟨.unified, S⟩
  | bound {v : String} {t : Term} : Either x y (.var v) t → ¬ .var v ≈ t → S.occurs v t = false →
      Meeting step S x y ⟨.unified, S.insert v t⟩
  | refused {v : String} {t : Term} : Either x y (.var v) t → ¬ .var v ≈ t → S.occurs v t = true →
      Meeting step S x y ⟨.occurs v t, S⟩
  | args {f : String} {xs ys : List Term} : Either x y (.app f xs) (.app f ys) →
      Meeting step S x y (unifyInStep step xs ys S)
  | clash : (∀ θ, ¬ x.bind θ ≈ y.bind θ) → Meeting step S x y ⟨.clash, S⟩

theorem Meeting.of_bindUnlessOccurs {step : Term → Term → Substitution → Unification}
    {S : Substitution} {x y : Term} {v : String} {t : Term} (hxy : Either x y (.var v) t)
    (hne : ¬ .var v ≈ t) : Meeting step S x y (S.bindUnlessOccurs v t) := by
  rw [Substitution.bindUnlessOccurs]
  cases ho : S.occurs v t with
  | true => exact .refused hxy hne ho
  | false => exact .bound hxy hne ho

theorem not_bind_equiv_of_clash {f g : String} {xs ys : List Term}
    (h : ¬ (f = g ∧ xs.length = ys.length)) (θ : String → Term) :
    ¬ (Term.app f xs).bind θ ≈ (Term.app g ys).bind θ := by
  intro hθ
  rw [Term.bind_app, Term.bind_app] at hθ
  obtain ⟨hfg, hxy⟩ := Term.app_equiv_app.mp hθ
  refine h ⟨hfg, ?_⟩
  have := hxy.length_eq
  rwa [List.length_map, List.length_map] at this

/-- **Two walked terms meet in one of the five ways.** -/
theorem unifyWithin_meeting (depth : Nat) (x y : Term) (S : Substitution) :
    Meeting (unifyWithin depth) S (S.walk x) (S.walk y) (unifyWithin (depth + 1) x y S) := by
  rw [unifyWithin]
  generalize S.walk x = x'
  generalize S.walk y = y'
  by_cases heq : (x' == y') = true
  · rw [if_pos heq]
    exact .equal heq
  rw [if_neg heq]
  cases x' with
  | var v => exact .of_bindUnlessOccurs (.inl ⟨rfl, rfl⟩) heq
  | const c =>
    cases y' with
    | var w => exact .of_bindUnlessOccurs (.inr ⟨rfl, rfl⟩) fun h => heq (Setoid.symm h)
    | const d => exact .clash fun θ => heq
    | app g ys =>
      refine .clash fun θ => ?_
      rw [Term.bind_app]
      exact Term.not_const_equiv_app
  | app f xs =>
    cases y' with
    | var w => exact .of_bindUnlessOccurs (.inr ⟨rfl, rfl⟩) fun h => heq (Setoid.symm h)
    | const d =>
      refine .clash fun θ h => ?_
      rw [Term.bind_app] at h
      exact Term.not_const_equiv_app (Setoid.symm h)
    | app g ys =>
      dsimp only
      by_cases hfg : f = g ∧ xs.length = ys.length
      · rw [if_pos hfg]
        obtain ⟨rfl, _⟩ := hfg
        cases y.isVar with
        | true => exact .args (.inr ⟨rfl, rfl⟩)
        | false => exact .args (.inl ⟨rfl, rfl⟩)
      · rw [if_neg hfg]
        exact .clash (not_bind_equiv_of_clash hfg)

/-! ### Taking arguments in step -/

theorem Unification.isUnified_iff {u : Unification} : u.isUnified = true ↔ u.verdict = .unified := by
  rw [isUnified]
  cases u.verdict <;> simp

theorem unifyInStep_cons {step : Term → Term → Substitution → Unification} {x y : Term}
    {xs ys : List Term} {S : Substitution} :
    unifyInStep step (x :: xs) (y :: ys) S =
      if (step x y S).isUnified then unifyInStep step xs ys (step x y S).bindings
      else step x y S := rfl

end ForwardChaining
