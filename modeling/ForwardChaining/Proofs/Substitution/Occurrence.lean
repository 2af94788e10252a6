import ForwardChaining.Proofs.Substitution.Equality

/-!
# Which bindings may be added

A binding of an unbound variable closes a way of bindings exactly if the variable is reached from the term
(`Acyclic.insert_iff`): the way from the variable into the term and on along the old bindings comes back to it.
What is reached and unbound is what is left when the term is resolved.  So the occurrence test, which follows
bindings and resolves nothing, tells both whether the variable is left in the resolved term and whether the binding
may be added (`occurs_exact`).
-/

namespace ForwardChaining

open Substitution
open Relation (TransGen)

variable {S : Substitution} {v : String} {t : Term}

namespace Substitution

theorem not_acyclic_of_reaches (hv : S.find? v = some t) (hr : S.Reaches t v) : ¬ S.Acyclic := by
  obtain ⟨w, hw, hwv⟩ := hr
  have hleads : S.Leads v w := ⟨t, hv, hw⟩
  exact fun hS => hS v (TransGen.head' hleads hwv)

/-- **A binding may be added exactly if it closes no way.** -/
theorem Acyclic.insert_iff (hS : S.Acyclic) (hv : S.find? v = none) :
    (S.insert v t).Acyclic ↔ ¬ S.Reaches t v := by
  refine ⟨fun h hr => ?_, hS.insert⟩
  have hbound : (S.insert v t).find? v = some t := by rw [find?_insert, if_pos rfl]
  have hheld : S.HeldIn (S.insert v t) := heldIn_of_le (le_insert t hv)
  exact not_acyclic_of_reaches hbound (hheld.reaches (Setoid.refl t) hr) h

end Substitution

/-- **The occurrence test is exact.**  On acyclic bindings the test and the resolving of the term both come to an
end.  The test finds an unbound variable exactly if it is one of the variables of the resolved term, and it does not
find it exactly if the variable can be bound to the term without a cycle. -/
theorem occurs_exact (S : Substitution) (hS : S.Acyclic) (v : String) (hv : S.find? v = none) (t : Term) :
    Unbounded.occurs S v t = some (S.occurs v t) ∧ Unbounded.apply S t = some (S.apply t) ∧
      (S.occurs v t = true ↔ v ∈ (S.apply t).vars) ∧ ((S.insert v t).Acyclic ↔ S.occurs v t = false) := by
  refine ⟨Unbounded.occurs_eq hS v t, Unbounded.apply_eq hS t, ?_, ?_⟩
  · rw [hS.occurs_iff, hS.mem_vars_apply]
    exact ⟨fun h => ⟨hv, h⟩, fun h => h.2⟩
  · rw [hS.insert_iff hv, hS.occurs_eq_false_iff]

/-- A variable that is met two bindings deep may not be bound, and one that is not met may be. -/
theorem occurs_exact_nested :
    let S : Substitution := (Substitution.empty.insert "Y" (.app "f" [.var "Z", .const (.text "c")])).insert "Z"
      (.app "g" [.var "X"])
    let t : Term := .app "p" [.const (.text "c"), .var "Y"]
    S.Acyclic ∧ S.find? "X" = none ∧ S.find? "W" = none ∧
      "X" ∈ (S.apply t).vars ∧ ¬ (S.insert "X" t).Acyclic ∧
      "W" ∉ (S.apply t).vars ∧ (S.insert "W" t).Acyclic := by
  intro S t
  have hY : (Substitution.empty.insert "Y" (.app "f" [.var "Z", .const (.text "c")])).Acyclic :=
    acyclic_empty.insert (acyclic_empty.occurs_eq_false_iff.mp (by decide))
  have hS : S.Acyclic := hY.insert (hY.occurs_eq_false_iff.mp (by decide))
  obtain ⟨-, -, hmem, hacyclic⟩ := occurs_exact S hS "X" rfl t
  obtain ⟨-, -, hmem', hacyclic'⟩ := occurs_exact S hS "W" rfl t
  refine ⟨hS, rfl, rfl, hmem.mp (by decide), ?_, ?_, hacyclic'.mpr (by decide)⟩
  · rw [hacyclic]
    decide
  · rw [← hmem']
    decide

end ForwardChaining
