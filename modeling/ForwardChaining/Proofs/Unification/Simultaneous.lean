import ForwardChaining.Proofs.Unification.MostGeneral

/-!
# Several equations at once

Pairs of terms are unified in turn on one growing substitution.  What is bound on the way depends on the order
of the pairs, and on which term of a pair comes first: of two variables either may be bound to the other, and a
compound term may go to either of two variables.  So two runs over the same pairs, rearranged, have nothing in
common between their ends.  Their ends are related by what they are for:

* `succeeds_iff`: every attempt succeeds exactly if some solution of the bindings at the start equates all pairs.
* `Succeeds.equates`: the bindings at the end equate all pairs.
* `solves_bindingsAfter`: and they are solved by every solution of the bindings at the start that does so.

None of the three mentions an order.  So the end of one run, read as a map, solves the end of the other, which
makes the two the same up to maps that lead from one to the other: `unifyInTurn_rearranged`.
-/

namespace ForwardChaining

open Substitution

variable {S : Substitution} {pairs pairs' : List (Term × Term)} {x y : Term} {θ : String → Term}

/-- Every attempt to unify the pairs in turn succeeds. -/
def Succeeds (pairs : List (Term × Term)) (S : Substitution) : Prop :=
  ∀ u ∈ unifyInTurn pairs S, u.isUnified = true

instance (pairs : List (Term × Term)) (S : Substitution) : Decidable (Succeeds pairs S) :=
  inferInstanceAs (Decidable (∀ u ∈ unifyInTurn pairs S, u.isUnified = true))

/-- The bindings that are left when the pairs have been unified in turn. -/
def bindingsAfter (pairs : List (Term × Term)) (S : Substitution) : Substitution :=
  pairs.foldl (fun S p => (unify p.1 p.2 S).bindings) S

/-- The map makes the two terms of every pair equal. -/
def Equates (θ : String → Term) (pairs : List (Term × Term)) : Prop :=
  ∀ p ∈ pairs, p.1.bind θ ≈ p.2.bind θ

theorem succeeds_nil (S : Substitution) : Succeeds [] S := fun _ hu => absurd hu List.not_mem_nil

theorem succeeds_cons : Succeeds ((x, y) :: pairs) S ↔
    (unify x y S).isUnified = true ∧ Succeeds pairs (unify x y S).bindings := by
  rw [Succeeds, unifyInTurn]
  exact List.forall_mem_cons

theorem bindingsAfter_cons :
    bindingsAfter ((x, y) :: pairs) S = bindingsAfter pairs (unify x y S).bindings := rfl

theorem equates_cons : Equates θ ((x, y) :: pairs) ↔ x.bind θ ≈ y.bind θ ∧ Equates θ pairs :=
  List.forall_mem_cons

/-! ### The end of a run -/

theorem bindingsAfter_acyclic (hS : S.Acyclic) (pairs : List (Term × Term)) :
    (bindingsAfter pairs S).Acyclic := by
  induction pairs generalizing S with
  | nil => exact hS
  | cons p pairs ih => exact ih (unify_acyclic hS)

theorem le_bindingsAfter (hS : S.Acyclic) (pairs : List (Term × Term)) : S ≤ bindingsAfter pairs S := by
  induction pairs generalizing S with
  | nil => exact Substitution.le_refl S
  | cons p pairs ih => exact Substitution.le_trans (le_unify hS) (ih (unify_acyclic hS))

/-- **A run that succeeds equates all pairs.** -/
theorem Succeeds.equates (h : Succeeds pairs S) (hS : S.Acyclic) :
    Equates (fun v => (bindingsAfter pairs S).apply (.var v)) pairs := by
  induction pairs generalizing S with
  | nil => exact fun _ hp => absurd hp List.not_mem_nil
  | cons p pairs ih =>
    obtain ⟨x, y⟩ := p
    obtain ⟨hfirst, hrest⟩ := succeeds_cons.mp h
    have hT : (unify x y S).bindings.Acyclic := unify_acyclic hS
    have hend := bindingsAfter_acyclic hT pairs
    have hle := le_bindingsAfter hT pairs
    rw [bindingsAfter_cons]
    refine equates_cons.mpr ⟨?_, ih hrest hT⟩
    -- What made the first pair equal still does so under the bindings of the others.
    rw [bind_apply_var, bind_apply_var, ← hT.apply_apply hend hle x, ← hT.apply_apply hend hle y]
    exact apply_equiv (unify_apply_equiv hS hfirst)

/-- **A solution that equates all pairs survives the run**, and then every attempt succeeds. -/
theorem solves_bindingsAfter (hS : S.Acyclic) (hθ : Solves θ S) (h : Equates θ pairs) :
    Succeeds pairs S ∧ Solves θ (bindingsAfter pairs S) := by
  induction pairs generalizing S with
  | nil => exact ⟨succeeds_nil S, hθ⟩
  | cons p pairs ih =>
    obtain ⟨x, y⟩ := p
    obtain ⟨hxy, hpairs⟩ := equates_cons.mp h
    obtain ⟨hfirst, hsolves⟩ := unify_solves hS hθ hxy
    obtain ⟨hrest, hend⟩ := ih (unify_acyclic hS) hsolves hpairs
    exact ⟨succeeds_cons.mpr ⟨hfirst, hrest⟩, hend⟩

theorem succeeds_iff (hS : S.Acyclic) :
    Succeeds pairs S ↔ ∃ θ, Solves θ S ∧ Equates θ pairs := by
  constructor
  · intro h
    exact ⟨_, solves_apply (bindingsAfter_acyclic hS pairs) (le_bindingsAfter hS pairs), h.equates hS⟩
  · rintro ⟨θ, hθ, h⟩
    exact (solves_bindingsAfter hS hθ h).1

/-! ### Rearrangements -/

/-- `pairs'` are the pairs in another order, some of them with their terms exchanged. -/
def Rearranges (pairs pairs' : List (Term × Term)) : Prop :=
  ∃ order, pairs.Perm order ∧ List.Forall₂ (fun p q => q = p ∨ q = p.swap) order pairs'

theorem equates_swap {p q : Term × Term} (h : q = p ∨ q = p.swap) :
    p.1.bind θ ≈ p.2.bind θ ↔ q.1.bind θ ≈ q.2.bind θ := by
  rcases h with rfl | rfl
  · exact Iff.rfl
  · exact ⟨Setoid.symm, Setoid.symm⟩

/-- **What equates the pairs does so however they are arranged.** -/
theorem Rearranges.equates_iff (h : Rearranges pairs pairs') : Equates θ pairs ↔ Equates θ pairs' := by
  obtain ⟨order, hperm, hswaps⟩ := h
  have horder : Equates θ pairs ↔ Equates θ order := forall_congr' fun p => by rw [hperm.mem_iff]
  refine horder.trans ?_
  clear hperm horder
  induction hswaps with
  | nil => exact Iff.rfl
  | cons hpq _ ih =>
    rw [Equates, Equates, List.forall_mem_cons, List.forall_mem_cons]
    exact and_congr (equates_swap hpq) ih

theorem Succeeds.factors (h : Succeeds pairs' S) (hS : S.Acyclic)
    (hsame : ∀ θ, Equates θ pairs ↔ Equates θ pairs') (t : Term) :
    (bindingsAfter pairs' S).apply t ≈
      ((bindingsAfter pairs S).apply t).bind fun v => (bindingsAfter pairs' S).apply (.var v) := by
  have hstart := solves_apply (bindingsAfter_acyclic hS pairs') (le_bindingsAfter hS pairs')
  have hsolves := (solves_bindingsAfter hS hstart ((hsame _).mpr (h.equates hS))).2
  have hbind : ((bindingsAfter pairs S).apply t).bind (fun v => (bindingsAfter pairs' S).apply (.var v)) ≈
      t.bind fun v => (bindingsAfter pairs' S).apply (.var v) :=
    hsolves.bind_apply (bindingsAfter_acyclic hS pairs) t
  rw [bind_apply_var (bindingsAfter pairs' S) t] at hbind
  exact Setoid.symm hbind

/-- **Unifying several pairs does not depend on their order, nor on which term of a pair comes first.**  From
acyclic bindings, every attempt succeeds in the one arrangement exactly if every attempt does in the other.
Then the two ends are the same up to two maps: what either of them makes of any term is what the map makes of
that which the other one makes of it. -/
theorem unifyInTurn_rearranged (pairs pairs' : List (Term × Term)) (S : Substitution) (hS : S.Acyclic)
    (h : Rearranges pairs pairs') :
    (Succeeds pairs S ↔ Succeeds pairs' S) ∧
    (Succeeds pairs S → ∃ ρ ρ' : String → Term, ∀ t,
      (bindingsAfter pairs' S).apply t ≈ ((bindingsAfter pairs S).apply t).bind ρ ∧
      (bindingsAfter pairs S).apply t ≈ ((bindingsAfter pairs' S).apply t).bind ρ') := by
  have hsame : ∀ θ, Equates θ pairs ↔ Equates θ pairs' := fun θ => h.equates_iff
  have hiff : Succeeds pairs S ↔ Succeeds pairs' S := by
    rw [succeeds_iff hS, succeeds_iff hS]
    exact exists_congr fun θ => and_congr_right fun _ => hsame θ
  refine ⟨hiff, fun hpairs => ?_⟩
  have hforth := (hiff.mp hpairs).factors hS hsame
  have hback := hpairs.factors hS fun θ => (hsame θ).symm
  exact ⟨_, _, fun t => ⟨hforth t, hback t⟩⟩

/-- Three equations from right to left: the one run leaves `V` unbound and the other one `X`. -/
theorem unifyInTurn_rearranged_reversed :
    let S := empty.insert "Z" (.app "f" [.var "X"])
    let pairs : List (Term × Term) := [(.var "X", .var "Y"), (.var "Y", .var "V"), (.var "Z", .var "U")]
    let pairs' : List (Term × Term) := [(.var "U", .var "Z"), (.var "V", .var "Y"), (.var "Y", .var "X")]
    S.Acyclic ∧ Rearranges pairs pairs' ∧ Succeeds pairs S ∧
      ((bindingsAfter pairs S).find? "V").isNone = true ∧ ((bindingsAfter pairs' S).find? "X").isNone = true ∧
      ∃ ρ ρ' : String → Term, ∀ t,
        (bindingsAfter pairs' S).apply t ≈ ((bindingsAfter pairs S).apply t).bind ρ ∧
        (bindingsAfter pairs S).apply t ≈ ((bindingsAfter pairs' S).apply t).bind ρ' := by
  intro S pairs pairs'
  have hS : S.Acyclic := acyclic_empty.insert (acyclic_empty.occurs_eq_false_iff.mp (by decide))
  have harranged : Rearranges pairs pairs' := by
    refine ⟨pairs.reverse, (List.reverse_perm pairs).symm, ?_⟩
    exact .cons (.inr rfl) (.cons (.inr rfl) (.cons (.inr rfl) .nil))
  have hok : Succeeds pairs S := by decide
  exact ⟨hS, harranged, hok, by decide, by decide, (unifyInTurn_rearranged pairs pairs' S hS harranged).2 hok⟩

end ForwardChaining
