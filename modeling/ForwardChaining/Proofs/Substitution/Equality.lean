import ForwardChaining.Proofs.Substitution.Composition

/-!
# Substitutions up to equality

Two substitutions are equal, `S ≈ S'`, if they bind the same variables and bind each of them to equal terms.
Neither the order in which the bindings were made counts, nor how the constants in them are held.

One direction is enough for most of it.  If the bindings of `S` are held in `S'` up to equality, then what leads
somewhere or is reached under `S` does so under `S'` (`HeldIn.leads`, `HeldIn.reaches`), since equal terms have
the same variables.  So equal substitutions are acyclic together, the occurrence test cannot tell them apart
(`Acyclic.occurs_congr`), and they make equal terms of equal terms (`Acyclic.walk_congr`, `Acyclic.apply_congr`).
-/

namespace ForwardChaining.Substitution

open Relation (TransGen ReflTransGen)

variable {S S' T : Substitution} {x x' t t' : Term} {v w : String}

/-! ### Bindings held up to equality -/

theorem HeldIn.refl (S : Substitution) : S.HeldIn S := fun _ t ht => ⟨t, ht, Setoid.refl t⟩

theorem HeldIn.trans (h : S.HeldIn S') (h' : S'.HeldIn T) : S.HeldIn T := by
  intro v t ht
  obtain ⟨u, hu, htu⟩ := h v t ht
  obtain ⟨s, hs, hus⟩ := h' v u hu
  exact ⟨s, hs, Setoid.trans htu hus⟩

theorem heldIn_of_le (h : S ≤ S') : S.HeldIn S' := fun v t ht => ⟨t, h v t ht, Setoid.refl t⟩

theorem HeldIn.insert (h : S.HeldIn S') (ht : t ≈ t') (v : String) :
    (S.insert v t).HeldIn (S'.insert v t') := by
  intro w u hu
  rw [find?_insert] at hu ⊢
  by_cases hw : w = v
  · rw [if_pos hw, Option.some.injEq] at hu
    rw [if_pos hw]
    exact ⟨t', rfl, hu ▸ ht⟩
  · rw [if_neg hw] at hu ⊢
    exact h w u hu

theorem HeldIn.leads (h : S.HeldIn S') (hvw : S.Leads v w) : S'.Leads v w := by
  obtain ⟨t, ht, hw⟩ := hvw
  obtain ⟨u, hu, htu⟩ := h v t ht
  exact ⟨u, hu, Term.vars_eq_of_equiv htu ▸ hw⟩

theorem HeldIn.reaches (h : S.HeldIn S') (hx : x ≈ x') (hr : S.Reaches x v) : S'.Reaches x' v := by
  obtain ⟨w, hw, hwv⟩ := hr
  exact ⟨w, Term.vars_eq_of_equiv hx ▸ hw, ReflTransGen.mono (fun _ _ => h.leads) _ _ hwv⟩

theorem HeldIn.acyclic (h : S.HeldIn S') (hS' : S'.Acyclic) : S.Acyclic :=
  fun v hv => hS' v (TransGen.mono (fun _ _ => h.leads) _ _ hv)

/-! ### Equal substitutions -/

/-- Substitutions are taken up to the equality of what they bind. -/
instance : Setoid Substitution where
  r S S' := S.HeldIn S' ∧ S'.HeldIn S
  iseqv := {
    refl := fun S => ⟨.refl S, .refl S⟩
    symm := fun h => ⟨h.2, h.1⟩
    trans := fun h h' => ⟨h.1.trans h'.1, h'.2.trans h.2⟩ }

theorem insert_congr (h : S ≈ S') (ht : t ≈ t') (v : String) : S.insert v t ≈ S'.insert v t' :=
  ⟨h.1.insert ht v, h.2.insert (Setoid.symm ht) v⟩

theorem find?_eq_none_of_equiv (h : S ≈ S') (hv : S.find? v = none) : S'.find? v = none := by
  refine Option.eq_none_iff_forall_ne_some.mpr fun u hu => ?_
  obtain ⟨t, ht, _⟩ := h.2 v u hu
  exact absurd (ht.symm.trans hv) (by simp)

theorem acyclic_of_equiv (h : S ≈ S') (hS : S.Acyclic) : S'.Acyclic := h.2.acyclic hS

theorem Acyclic.walk_congr (hS : S.Acyclic) (h : S ≈ S') (hx : x ≈ x') : S.walk x ≈ S'.walk x' := by
  refine Setoid.trans ?_ (Unbounded.walk_equiv hx)
  clear hx
  induction x using hS.induction with
  | unbound v hv => rw [walk_of_unbound hv, walk_of_unbound (find?_eq_none_of_equiv h hv)]
  | bound v u hv ih =>
    -- The two go on from terms that are only equal to each other.
    obtain ⟨u', hu', huu'⟩ := h.1 v u hv
    rw [hS.walk_of_bound hv, (acyclic_of_equiv h hS).walk_of_bound hu']
    exact Setoid.trans ih (Unbounded.walk_equiv huu')
  | const c => rw [walk_const, walk_const]
  | app f args _ => rw [walk_app, walk_app]

/-- **Equal substitutions make equal terms of equal terms.** -/
theorem Acyclic.apply_congr (hS : S.Acyclic) (h : S ≈ S') (hx : x ≈ x') : S.apply x ≈ S'.apply x' := by
  -- What `S` has resolved, `S'` leaves as it is: the variables that are left are unbound in both.
  have hresolved : S'.apply (S.apply x) = S.apply x := by
    rw [← bind_apply_var]
    refine (Term.bind_congr fun v hv => ?_).trans (Term.bind_var_eq_self _)
    exact apply_of_unbound (find?_eq_none_of_equiv h (hS.mem_vars_apply.mp hv).1)
  rw [← hresolved]
  exact Setoid.trans (hS.apply_apply_equiv (acyclic_of_equiv h hS) h.1 x) (apply_equiv hx)

/-- **The occurrence test does not tell equal substitutions apart, nor equal terms.** -/
theorem Acyclic.occurs_congr (hS : S.Acyclic) (h : S ≈ S') (hx : x ≈ x') (v : String) :
    S.occurs v x = S'.occurs v x' := by
  rw [Bool.eq_iff_iff, hS.occurs_iff, (acyclic_of_equiv h hS).occurs_iff]
  exact ⟨h.1.reaches hx, h.2.reaches (Setoid.symm hx)⟩

end ForwardChaining.Substitution
