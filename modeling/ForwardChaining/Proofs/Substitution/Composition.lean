import ForwardChaining.Proofs.Unification.Termination

/-!
# Resolving in two steps

What a substitution leaves of a term are the unbound variables that the term reaches, and a substitution with more
bindings goes on from them: to resolve with the one and then with the other is to resolve with the second one from
the start.  It is no different if only the variable at the top has been followed before.

For identical bindings this gives the identical term.  Where bindings are held up to equality only
(`Substitution.HeldIn`), a resolved term is resolved further to an equal one (`Acyclic.apply_apply_equiv`).  The
induction is in both cases on the term and along the bindings of the first substitution, since these are the ones that
are followed twice.
-/

namespace ForwardChaining

open Substitution

variable {S S' : Substitution}

namespace Substitution

/-- `S'` binds every variable that `S` binds, to an equal term. -/
def HeldIn (S S' : Substitution) : Prop := ∀ v t, S.find? v = some t → ∃ u, S'.find? v = some u ∧ t ≈ u

theorem Acyclic.apply_var_equiv (hS' : S'.Acyclic) (h : S.HeldIn S') {v : String} {t : Term}
    (hv : S.find? v = some t) : S'.apply t ≈ S'.apply (.var v) := by
  obtain ⟨u, hu, htu⟩ := h v t hv
  rw [hS'.apply_of_bound hu]
  exact apply_equiv htu

theorem Acyclic.apply_apply_equiv (hS : S.Acyclic) (hS' : S'.Acyclic) (h : S.HeldIn S') (t : Term) :
    S'.apply (S.apply t) ≈ S'.apply t := by
  induction t using hS.induction with
  | unbound v hv => rw [apply_of_unbound hv]
  | bound v u hv ih =>
    -- `S` goes on from `u`, but `S'` from a term that is only equal to it.
    rw [hS.apply_of_bound hv]
    exact Setoid.trans ih (hS'.apply_var_equiv h hv)
  | const c => rw [apply_const]
  | app f args ih =>
    rw [apply_app, apply_app, apply_app, List.map_map, Term.app_equiv_app]
    refine ⟨rfl, ?_⟩
    rw [List.forall₂_map_left_iff, List.forall₂_map_right_iff, List.forall₂_same]
    exact ih

theorem Acyclic.apply_walk_equiv (hS : S.Acyclic) (hS' : S'.Acyclic) (h : S.HeldIn S') (t : Term) :
    S'.apply (S.walk t) ≈ S'.apply t := by
  induction t using hS.induction with
  | unbound v hv => rw [walk_of_unbound hv]
  | bound v u hv ih =>
    rw [hS.walk_of_bound hv]
    exact Setoid.trans ih (hS'.apply_var_equiv h hv)
  | const c => rw [walk_const]
  | app f args _ => rw [walk_app]

end Substitution

/-- **Applying substitutions composes, and it resolves as far as there are bindings.**  On acyclic bindings both
recursions come to an end.  If the second substitution has every binding of the first, a term that has been resolved
or walked by the first one is resolved by the second to what it makes of the term itself; to an equal term, if it has
these bindings up to equality.  So a second application changes nothing.  The variables that are left are the unbound
ones that the term reaches. -/
theorem apply_composes (S S' : Substitution) (hS : S.Acyclic) (hS' : S'.Acyclic) :
    (∀ t, Unbounded.apply S t = some (S.apply t) ∧ Unbounded.resolve S t = some (S.walk t) ∧
      Unbounded.apply S' t = some (S'.apply t)) ∧
    (S ≤ S' → ∀ t, S'.apply (S.apply t) = S'.apply t ∧ S'.apply (S.walk t) = S'.apply t) ∧
    (S.HeldIn S' → ∀ t, S'.apply (S.apply t) ≈ S'.apply t ∧ S'.apply (S.walk t) ≈ S'.apply t) ∧
    (∀ t, S.apply (S.apply t) = S.apply t) ∧
    ∀ t v, v ∈ (S.apply t).vars ↔ S.find? v = none ∧ S.Reaches t v := by
  refine ⟨fun t => ?_, fun h t => ?_, fun h t => ?_, fun t => ?_, fun t v => hS.mem_vars_apply⟩
  · exact ⟨Unbounded.apply_eq hS t, Unbounded.resolve_eq hS t, Unbounded.apply_eq hS' t⟩
  · exact ⟨hS.apply_apply hS' h t, hS.apply_walk hS' h t⟩
  · exact ⟨hS.apply_apply_equiv hS' h t, hS.apply_walk_equiv hS' h t⟩
  · exact hS.apply_apply hS (le_refl S) t

/-- A chain of two bindings through a compound term, met twice in the term, to which a third one is added. -/
theorem apply_composes_chain :
    let S : Substitution := (Substitution.empty.insert "X" (.app "f" [.var "Y", .var "Z"])).insert "Y" (.var "Z")
    let S' : Substitution := S.insert "Z" (.app "g" [.var "W"])
    let t : Term := .app "p" [.var "X", .var "Y", .const (.text "c")]
    S.Acyclic ∧ S'.Acyclic ∧ S ≤ S' ∧ S'.apply (S.apply t) = S'.apply t ∧
      (S.apply t).vars = ["Z", "Z", "Z"] ∧ (S'.apply t).vars = ["W", "W", "W"] := by
  intro S S' t
  have hX : (Substitution.empty.insert "X" (.app "f" [.var "Y", .var "Z"])).Acyclic :=
    acyclic_empty.insert (acyclic_empty.occurs_eq_false_iff.mp (by decide))
  have hS : S.Acyclic := hX.insert (hX.occurs_eq_false_iff.mp (by decide))
  have hS' : S'.Acyclic := hS.insert (hS.occurs_eq_false_iff.mp (by decide))
  have hle : S ≤ S' := le_insert _ rfl
  exact ⟨hS, hS', hle, ((apply_composes S S' hS hS').2.1 hle t).1, by decide, by decide⟩

end ForwardChaining
