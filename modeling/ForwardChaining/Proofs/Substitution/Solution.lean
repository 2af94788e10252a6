import ForwardChaining.Proofs.Substitution.Application

/-!
# Solutions of bindings

Bindings are equations: `θ` solves a substitution if it gives each bound variable, up to equality, what it
makes of the term that the variable is bound to.  A solution cannot tell a term from what the term stands
for (`Solves.bind_walk`, `Solves.bind_apply`), and no solution makes a variable equal to a compound term
that reaches it (`Solves.not_equiv_of_reaches`), since equal terms have equal sizes.
-/

namespace ForwardChaining.Substitution

variable {S S' : Substitution} {θ : String → Term}

/-- `θ` agrees with every binding of `S`. -/
def Solves (θ : String → Term) (S : Substitution) : Prop :=
  ∀ v t, S.find? v = some t → θ v ≈ t.bind θ

theorem solves_empty (θ : String → Term) : Solves θ empty :=
  fun v t h => absurd h (by simp)

theorem Solves.insert (h : Solves θ S) {v : String} {t : Term} (hvt : θ v ≈ t.bind θ) :
    Solves θ (S.insert v t) := by
  intro w u hw
  rw [find?_insert] at hw
  by_cases hwv : w = v
  · rw [if_pos hwv, Option.some.injEq] at hw
    rw [hwv, ← hw]
    exact hvt
  · rw [if_neg hwv] at hw
    exact h w u hw

theorem solves_apply (hS' : S'.Acyclic) (hle : S ≤ S') : Solves (fun v => S'.apply (.var v)) S := by
  intro v t hv
  show S'.apply (.var v) ≈ _
  rw [bind_apply_var, hS'.apply_of_bound (hle v t hv)]

theorem Solves.bind_apply (h : Solves θ S) (hS : S.Acyclic) (t : Term) :
    (S.apply t).bind θ ≈ t.bind θ := by
  induction t using hS.induction with
  | unbound v hv => rw [apply_of_unbound hv]
  | bound v u hv ih =>
    rw [hS.apply_of_bound hv]
    exact Setoid.trans ih (Setoid.symm (h v u hv))
  | const c => rw [apply_const]
  | app f args ih =>
    rw [apply_app, Term.bind_app, Term.bind_app, List.map_map]
    refine Term.app_equiv_app.mpr ⟨rfl, ?_⟩
    rw [List.forall₂_map_left_iff, List.forall₂_map_right_iff, List.forall₂_same]
    exact ih

theorem Solves.bind_walk (h : Solves θ S) (hS : S.Acyclic) (t : Term) :
    (S.walk t).bind θ ≈ t.bind θ := by
  induction t using hS.induction with
  | unbound v hv => rw [walk_of_unbound hv]
  | bound v u hv ih =>
    rw [hS.walk_of_bound hv]
    exact Setoid.trans ih (Setoid.symm (h v u hv))
  | const c => rw [walk_const]
  | app f args _ => rw [walk_app]

/-- **The occurrence test refuses nothing that could be solved.**  A variable that is reached from a
compound term stands for something smaller than that term under every solution. -/
theorem Solves.not_equiv_of_reaches (h : Solves θ S) (hS : S.Acyclic) {v f : String}
    {args : List Term} (hv : S.find? v = none) (hr : S.Reaches (.app f args) v) :
    ¬ θ v ≈ (Term.app f args).bind θ := by
  intro hθ
  have hmem : v ∈ (S.apply (.app f args)).vars := hS.mem_vars_apply.mpr ⟨hv, hr⟩
  rw [apply_app] at hmem
  have hlt := Term.size_lt_size_bind_app (σ := θ) hmem
  have happly := Term.size_eq_of_equiv (h.bind_apply hS (.app f args))
  have heq := Term.size_eq_of_equiv hθ
  rw [apply_app] at happly
  omega

end ForwardChaining.Substitution
