import ForwardChaining.Proofs.Term

/-!
# Subterms

The subterms of a term are the term itself and the subterms of its arguments.  They do not depend on how the
constants of the term are held (`exists_mem_subterms_of_equiv`), and what replaces a variable is a subterm of the
whole (`mem_subterms_bind`).
-/

namespace ForwardChaining.Term

variable {s t u x y : Term}

mutual
/-- The subterms of a term, itself first, each as often as it occurs. -/
def subterms : Term → List Term
  | .var v => [.var v]
  | .const c => [.const c]
  | .app f args => .app f args :: subtermsOf args

/-- The subterms of a list of terms. -/
def subtermsOf : List Term → List Term
  | [] => []
  | t :: ts => t.subterms ++ subtermsOf ts
end

theorem subtermsOf_eq_flatMap (ts : List Term) : subtermsOf ts = ts.flatMap subterms := by
  induction ts with
  | nil => rfl
  | cons t ts ih => simp [subtermsOf, ih]

@[simp] theorem mem_subterms_var {v : String} : s ∈ (var v).subterms ↔ s = var v := List.mem_singleton

@[simp] theorem mem_subterms_const {c : Value} : s ∈ (const c).subterms ↔ s = const c := List.mem_singleton

@[simp] theorem mem_subterms_app {f : String} {args : List Term} :
    s ∈ (app f args).subterms ↔ s = app f args ∨ ∃ t ∈ args, s ∈ t.subterms := by
  rw [subterms, subtermsOf_eq_flatMap, List.mem_cons, List.mem_flatMap]

theorem mem_subterms_self (t : Term) : t ∈ t.subterms := by
  cases t <;> simp

theorem mem_subterms_trans (hs : s ∈ t.subterms) (hu : u ∈ s.subterms) : u ∈ t.subterms := by
  induction t with
  | var v =>
    rw [mem_subterms_var.mp hs] at hu
    exact hu
  | const c =>
    rw [mem_subterms_const.mp hs] at hu
    exact hu
  | app f args ih =>
    rcases mem_subterms_app.mp hs with rfl | ⟨t, ht, hs⟩
    · exact hu
    · exact mem_subterms_app.mpr (.inr ⟨t, ht, ih t ht hs⟩)

/-- **Equal terms have equal subterms.** -/
theorem exists_mem_subterms_of_equiv (h : x ≈ y) (hs : s ∈ x.subterms) : ∃ u ∈ y.subterms, s ≈ u := by
  induction h using equiv_rec generalizing s with
  | var v => exact ⟨s, hs, Setoid.refl s⟩
  | const c d h =>
    rw [mem_subterms_const.mp hs]
    exact ⟨const d, mem_subterms_self _, h⟩
  | app f xs ys h hxy =>
    rcases mem_subterms_app.mp hs with rfl | ⟨t, ht, hs⟩
    · exact ⟨app f ys, mem_subterms_self _, h⟩
    · obtain ⟨u, hu, htu⟩ := forall_exists_iff_exists_forall₂.mpr ⟨ys, fun _ hu => hu, hxy⟩ t ht
      obtain ⟨_, ih⟩ := htu
      obtain ⟨w, hw, hsw⟩ := ih hs
      exact ⟨w, mem_subterms_app.mpr (.inr ⟨u, hu, hw⟩), hsw⟩

/-- **What replaces a variable is a subterm of the whole.** -/
theorem mem_subterms_bind {σ : String → Term} {v : String} (h : v ∈ t.vars) : σ v ∈ (t.bind σ).subterms := by
  induction t with
  | var w =>
    rw [List.mem_singleton.mp h]
    exact mem_subterms_self _
  | const c => exact absurd h List.not_mem_nil
  | app f args ih =>
    obtain ⟨t, ht, hv⟩ := mem_vars_app.mp h
    rw [bind_app]
    exact mem_subterms_app.mpr (.inr ⟨t.bind σ, List.mem_map_of_mem ht, ih t ht hv⟩)

end ForwardChaining.Term
