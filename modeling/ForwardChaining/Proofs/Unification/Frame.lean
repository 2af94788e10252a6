import ForwardChaining.Proofs.Subterms
import ForwardChaining.Proofs.Unbounded.Reports
import ForwardChaining.Proofs.Unification.Termination

/-!
# What unification leaves alone

An attempt to unify works on the bindings that it is given and takes nothing back when it fails.  What it may do to them
is the same either way (`Framed`): the bindings at the start stay as they are, and a new one is for a variable that
what the two terms stand for has in it, to a piece of what was given (`unify_framed`).  Both follow from
`unify_grows`, by which an attempt stays within every set of terms that taking arguments and following bindings do not
lead out of: `unresolvedWithin` and `pieces` are two such sets.

The reports of rejected bindings are framed in the same way.  They are only added to, by one at most, and then the
answer is no (`leave_framed`).  Every call of the recursion is again one on acyclic bindings, so all this is true of
all calls within a call: `unify_frame`.
-/

namespace ForwardChaining

open Substitution

variable {S T : Substitution} {x y t : Term} {v : String}

/-! ### Where new bindings come from -/

/-- The terms that stand for terms whose variables are among those of what `x` and `y` stand for. -/
def unresolvedWithin (x y : Term) (S : Substitution) (t : Term) : Prop :=
  ∀ v ∈ (S.apply t).vars, v ∈ (S.apply x).vars ∨ v ∈ (S.apply y).vars

/-- The subterms of `x`, of `y`, and of the terms to which `S` binds variables. -/
def pieces (x y : Term) (S : Substitution) (t : Term) : Prop :=
  t ∈ x.subterms ∨ t ∈ y.subterms ∨ ∃ v u, S.find? v = some u ∧ t ∈ u.subterms

theorem confined_unresolvedWithin (hS : S.Acyclic) (x y : Term) : Confined (unresolvedWithin x y S) S where
  acyclic := hS
  arg := by
    intro f args h t ht v hv
    refine h v ?_
    rw [apply_app]
    exact Term.mem_vars_app.mpr ⟨S.apply t, List.mem_map_of_mem ht, hv⟩
  bound := by
    intro w t h hw v hv
    refine h v ?_
    rw [hS.apply_of_bound hw]
    exact hv

theorem confined_pieces (hS : S.Acyclic) (x y : Term) : Confined (pieces x y S) S where
  acyclic := hS
  arg := by
    intro f args h t ht
    have hpart : t ∈ (Term.app f args).subterms := Term.mem_subterms_app.mpr (.inr ⟨t, ht, t.mem_subterms_self⟩)
    rcases h with h | h | ⟨v, u, hv, h⟩
    · exact .inl (Term.mem_subterms_trans h hpart)
    · exact .inr (.inl (Term.mem_subterms_trans h hpart))
    · exact .inr (.inr ⟨v, u, hv, Term.mem_subterms_trans h hpart⟩)
  bound := fun v t _ hv => .inr (.inr ⟨v, t, hv, t.mem_subterms_self⟩)

/-- A binding that may be added to `S` when `x` and `y` are unified. -/
structure IsAddition (x y : Term) (S : Substitution) (v : String) (t : Term) : Prop where
  unbound : S.find? v = none
  mem_vars : v ∈ (S.apply x).vars ∨ v ∈ (S.apply y).vars
  piece : pieces x y S t

structure Framed (x y : Term) (S T : Substitution) : Prop where
  /-- No binding is removed or overwritten. -/
  kept : ∀ v t, S.find? v = some t → T.find? v = some t
  added : ∀ v t, T.find? v = some t → S.find? v = some t ∨ IsAddition x y S v t

theorem framed_refl (x y : Term) (S : Substitution) : Framed x y S S := ⟨fun _ _ h => h, fun _ _ h => .inl h⟩

/-- **Whether or not it succeeds, unification only adds bindings**, of variables that the terms have when they are
resolved, to pieces of what was given. -/
theorem unify_framed (hS : S.Acyclic) (x y : Term) : Framed x y S (unify x y S).bindings where
  kept := le_unify hS
  added := by
    intro v t hv
    have hvars := unify_grows (confined_unresolvedWithin hS x y) (fun _ => .inl) (fun _ => .inr)
    have hpieces := unify_grows (confined_pieces hS x y) (.inl x.mem_subterms_self)
      (.inr (.inl y.mem_subterms_self))
    rcases hvars.find?_eq_some hv with hold | ⟨hnone, hvar, _⟩
    · exact .inl hold
    rcases hpieces.find?_eq_some hv with hold | ⟨_, _, hpiece⟩
    · exact .inl hold
    refine .inr ⟨hnone, hvar v ?_, hpiece⟩
    rw [apply_of_unbound hnone]
    exact List.mem_singleton_self v

/-! ### Calls that follow a binding -/

/-- What may be done for the term that a variable is bound to may be done for the variable. -/
theorem Framed.of_bound {u : Term} (h : Framed u y S T) (hS : S.Acyclic) (hv : S.find? v = some u) :
    Framed (.var v) y S T where
  kept := h.kept
  added := by
    intro w t hw
    rcases h.added w t hw with hold | ⟨hnone, hvars, hpiece⟩
    · exact .inl hold
    refine .inr ⟨hnone, ?_, ?_⟩
    · rwa [hS.apply_of_bound hv]
    · rcases hpiece with hpiece | hpiece | hpiece
      · exact .inr (.inr ⟨v, u, hv, hpiece⟩)
      · exact .inr (.inl hpiece)
      · exact .inr (.inr hpiece)

theorem unifyVar_framed (hS : S.Acyclic) {u : Unification} (h : Unbounded.unifyVar v t S = some u) :
    Framed (.var v) t S u.bindings := by
  by_cases heq : .var v ≈ t
  · obtain rfl := Term.eq_var_of_equiv heq
    cases hv : S.find? v with
    | some s =>
      rw [Unbounded.unifyVar_of_bound hv, Unbounded.unify_eq hS] at h
      cases h
      exact (unify_framed hS s (.var v)).of_bound hS hv
    | none =>
      -- A variable without a binding is found in itself, so that this call, which no other one makes, binds nothing.
      have hself : S.occurs v (.var v) = true := hS.occurs_iff.mpr ((reaches_var_iff_of_unbound hv).mpr rfl)
      rw [Unbounded.unifyVar_of_walked hS hv fun w hw => Term.var.inj hw ▸ hv, bindUnlessOccurs, if_pos hself] at h
      cases h
      exact framed_refl _ _ S
  · rw [← Unbounded.unify_var_left heq, Unbounded.unify_eq hS] at h
    cases h
    exact unify_framed hS (.var v) t

/-! ### Calls with reports -/

theorem Unbounded.unifyIn_eq (hS : S.Acyclic) (x y : Term) (rs : List Rejection) :
    unifyIn x y ⟨S, rs⟩ = some ((ForwardChaining.unify x y S).leave rs) :=
  runsAlike.1 x y S _ (unify_eq hS x y) rs

/-- What a call that answers `answer` may do in a workspace with the bindings `S` and the reports `rs`. -/
structure FramedCall (x y : Term) (S : Substitution) (rs : List Rejection) (answer : Bool) (w : Workspace) :
    Prop where
  bindings : Framed x y S w.bindings
  /-- At most one rejected binding is reported, and then the answer is no. -/
  reports : w.reports = rs ∨ answer = false ∧ ∃ r, w.reports = rs ++ [r]

theorem leave_framed {u : Unification} (h : Framed x y S u.bindings) (rs : List Rejection) :
    FramedCall x y S rs (u.leave rs).1 (u.leave rs).2 where
  bindings := h
  reports := by
    obtain ⟨verdict, T⟩ := u
    cases verdict with
    | occurs v t => exact .inr ⟨rfl, ⟨v, t⟩, rfl⟩
    | _ => exact .inl (List.append_nil rs)

/-- **The frame of unification.**  On acyclic bindings every call comes to an end, and whatever its answer, all bindings
are still there and unchanged; what is bound anew was unbound and is a variable of what one of the two terms stands
for, and it is bound to a subterm of one of them or of a bound term.  The reports are still there, with one more at
most, and a call that reports answers no. -/
theorem unify_frame (S : Substitution) (hS : S.Acyclic) (rs : List Rejection) :
    (∀ x y, ∃ answer w, Unbounded.unifyIn x y ⟨S, rs⟩ = some (answer, w) ∧
      answer = (unify x y S).isUnified ∧ w.bindings = (unify x y S).bindings ∧ FramedCall x y S rs answer w) ∧
    ∀ v t, ∃ answer w, Unbounded.unifyVarIn v t ⟨S, rs⟩ = some (answer, w) ∧
      FramedCall (.var v) t S rs answer w := by
  constructor
  · intro x y
    exact ⟨_, _, Unbounded.unifyIn_eq hS x y rs, rfl, rfl, leave_framed (unify_framed hS x y) rs⟩
  · intro v t
    obtain ⟨u, hu, _⟩ := Unbounded.exists_unifyVar_eq_some hS v t
    exact ⟨_, _, Unbounded.runsAlike.2.2 v t S u hu rs, leave_framed (unifyVar_framed hS hu) rs⟩

/-- The first pair of arguments is unified through a binding, and the second one fails on it with a report. -/
theorem unify_frame_report :
    let S := empty.insert "Z" (.app "f" [.var "X"])
    let x := Term.app "p" [.var "W", .var "X"]
    let y := Term.app "p" [.var "Z", .var "Z"]
    S.Acyclic ∧ ∃ w, Unbounded.unifyIn x y ⟨S, []⟩ = some (false, w) ∧
      w.bindings.find? "W" = some (.app "f" [.var "X"]) ∧ FramedCall x y S [] false w := by
  intro S x y
  have hS : S.Acyclic := acyclic_empty.insert (acyclic_empty.occurs_eq_false_iff.mp (by decide))
  obtain ⟨answer, w, hrun, hanswer, hbindings, hframed⟩ := (unify_frame S hS []).1 x y
  have hfail : (unify x y S).isUnified = false := by decide
  rw [hfail] at hanswer
  subst hanswer
  refine ⟨hS, w, hrun, ?_, hframed⟩
  rw [hbindings]
  rfl

end ForwardChaining
