import ForwardChaining.Rule
import ForwardChaining.Proofs.Substitution.Application

/-!
# Atoms up to equality

What is known of terms, said of atoms: they are compared as the terms that they are, and their variables
are replaced in the same way.  `Rule.Grounds` singles out the maps that give ground terms to the variables of
the antecedents of a rule and leave the others alone.
-/

namespace ForwardChaining

namespace Atom

/-- Atoms are taken up to `==`. -/
instance : Setoid Atom where
  r a b := (a == b) = true
  iseqv := ⟨BEq.refl, BEq.symm, BEq.trans⟩

theorem equiv_iff_toTerm {a b : Atom} : a ≈ b ↔ a.toTerm ≈ b.toTerm := Iff.rfl

theorem equiv_iff_beq {a b : Atom} : a ≈ b ↔ (a == b) = true := Iff.rfl

theorem not_equiv_iff {a b : Atom} : ¬ a ≈ b ↔ (a == b) = false := by
  rw [equiv_iff_beq, Bool.not_eq_true]

theorem toTerm_injective : Function.Injective toTerm := by
  rintro ⟨f, xs⟩ ⟨g, ys⟩ h
  rw [toTerm, toTerm, Term.app.injEq] at h
  exact congrArg₂ Atom.mk h.1 h.2

/-- The atom with each variable replaced by the term that `σ` gives for it. -/
def bind (σ : String → Term) (a : Atom) : Atom := ⟨a.functor, a.args.map (Term.bind σ)⟩

@[simp] theorem toTerm_bind (σ : String → Term) (a : Atom) :
    (a.bind σ).toTerm = a.toTerm.bind σ := (Term.bind_app σ a.functor a.args).symm

@[simp] theorem toTerm_applyAtom (S : Substitution) (a : Atom) :
    (S.applyAtom a).toTerm = S.apply a.toTerm := (Substitution.apply_app a.functor a.args).symm

theorem isGround_eq_of_equiv {a b : Atom} (h : a ≈ b) : a.isGround = b.isGround :=
  Term.isGround_eq_of_equiv h

theorem vars_eq_of_equiv {a b : Atom} (h : a ≈ b) : a.vars = b.vars := Term.vars_eq_of_equiv h

theorem bind_congr {σ τ : String → Term} {a : Atom} (h : ∀ v ∈ a.vars, σ v = τ v) : a.bind σ = a.bind τ := by
  refine toTerm_injective ?_
  rw [toTerm_bind, toTerm_bind]
  exact Term.bind_congr h

theorem bind_eq_self_of_isGround {a : Atom} (h : a.isGround = true) (σ : String → Term) :
    a.bind σ = a := by
  have hargs : ∀ t ∈ a.args, t.bind σ = t := fun t ht =>
    Term.bind_eq_self_of_isGround (Term.isGround_app.mp h t ht) σ
  rw [bind, List.map_congr_left hargs, List.map_id']

theorem bind_equiv {σ τ : String → Term} {a : Atom} (h : ∀ v, σ v ≈ τ v) : a.bind σ ≈ a.bind τ := by
  rw [equiv_iff_toTerm, toTerm_bind, toTerm_bind]
  exact Term.bind_equiv (Setoid.refl _) fun v _ => h v

theorem bind_equiv_bind {a b : Atom} (h : a ≈ b) (σ : String → Term) : a.bind σ ≈ b.bind σ := by
  rw [equiv_iff_toTerm, toTerm_bind, toTerm_bind]
  exact Term.bind_equiv h fun v _ => Setoid.refl _

/-- The map that a substitution stands for does to an atom what the substitution does. -/
theorem bind_apply_var (S : Substitution) (a : Atom) :
    a.bind (fun v => S.apply (.var v)) = S.applyAtom a := by
  rw [bind, Substitution.applyAtom, List.map_congr_left fun t _ => S.bind_apply_var t]

theorem applyAtom_of_isGround {S : Substitution} {a : Atom} (h : a.isGround = true) :
    S.applyAtom a = a := by
  rw [← bind_apply_var, bind_eq_self_of_isGround h]

end Atom

/-- `σ` gives ground terms to the variables of the antecedents and leaves all other variables alone. -/
structure Rule.Grounds (r : Rule) (σ : String → Term) : Prop where
  ground : ∀ v ∈ r.antecedentVars, (σ v).isGround = true
  kept : ∀ v, v ∉ r.antecedentVars → σ v = .var v

theorem Rule.mem_antecedentVars {r : Rule} {v : String} :
    v ∈ r.antecedentVars ↔ ∃ a ∈ r.antecedents, v ∈ a.vars := List.mem_flatMap

/-- Equal rules have equal antecedents at the same places. -/
theorem Rule.forall₂_antecedents {r s : Rule} (h : (r == s) = true) :
    List.Forall₂ (· ≈ ·) r.antecedents s.antecedents := list_beq_iff_forall₂.mp (Rule.beq_iff.mp h).1

theorem Rule.antecedentVars_eq_of_beq {r s : Rule} (h : (r == s) = true) :
    r.antecedentVars = s.antecedentVars := by
  have hmap : r.antecedents.map Atom.vars = s.antecedents.map Atom.vars :=
    map_eq_of_forall₂ ((Rule.forall₂_antecedents h).imp fun _ _ => Atom.vars_eq_of_equiv)
  rw [antecedentVars, antecedentVars, List.flatMap_def, List.flatMap_def, hmap]

theorem Rule.vars_eq_of_beq {r s : Rule} (h : (r == s) = true) : r.vars = s.vars := by
  have hcons : r.consequent.vars = s.consequent.vars := Atom.vars_eq_of_equiv (Rule.beq_iff.mp h).2
  rw [vars, vars, antecedentVars_eq_of_beq h, hcons]

end ForwardChaining
