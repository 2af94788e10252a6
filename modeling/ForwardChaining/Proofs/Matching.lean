import ForwardChaining.Instantiation
import ForwardChaining.Proofs.Atom
import ForwardChaining.Proofs.Unification.MostGeneral

/-!
# Matching antecedents with facts

A branch of the search that is completed matches the antecedents, one after the other, with facts that it
has chosen (`Matches`).  Two things are known of the bindings at its end:

* They make every antecedent equal to its fact (`Matches.apply_equiv`).
* Every map that does so and solves the bindings at the start solves them, and while there is such a map
  the branch does not fail (`exists_matches`).

From facts without variables a branch that starts without bindings gives the variables of the antecedents
ground terms and binds no others (`Matches.grounds`), and the map that its bindings stand for is the only
one of this kind that solves them (`Matches.apply_equiv_of_solves`).
-/

namespace ForwardChaining

open Substitution

variable {S S' : Substitution} {as fs facts : List Atom} {θ : String → Term}

/-- `S'` comes from `S` by unifying the antecedents in turn, each with its fact. -/
inductive Matches : List Atom → List Atom → Substitution → Substitution → Prop
  | nil {S : Substitution} : Matches [] [] S S
  | cons {a f : Atom} {as fs : List Atom} {S S' : Substitution} :
      (unify a.toTerm f.toTerm S).isUnified = true →
      Matches as fs (unify a.toTerm f.toTerm S).bindings S' → Matches (a :: as) (f :: fs) S S'

/-! ### Completed branches -/

theorem ok_mem_attempts_cons {a : Atom} :
    .ok S' ∈ attempts facts (a :: as) S ↔ ∃ f ∈ facts,
      (unify a.toTerm f.toTerm S).isUnified = true ∧
        .ok S' ∈ attempts facts as (unify a.toTerm f.toTerm S).bindings := by
  rw [attempts, List.mem_flatMap]
  refine exists_congr fun f => and_congr_right fun _ => ?_
  obtain ⟨verdict, T⟩ := unify a.toTerm f.toTerm S
  cases verdict <;> simp [Unification.isUnified]

/-- **The completed branches** are the matches with lists of facts. -/
theorem ok_mem_attempts_iff :
    .ok S' ∈ attempts facts as S ↔ ∃ fs, (∀ f ∈ fs, f ∈ facts) ∧ Matches as fs S S' := by
  induction as generalizing S with
  | nil =>
    rw [attempts, List.mem_singleton, Except.ok.injEq]
    constructor
    · rintro rfl
      exact ⟨[], fun _ h => absurd h List.not_mem_nil, .nil⟩
    · rintro ⟨fs, _, h⟩
      cases h
      rfl
  | cons a as ih =>
    rw [ok_mem_attempts_cons]
    constructor
    · rintro ⟨f, hf, hok, h⟩
      obtain ⟨fs, hfs, h⟩ := ih.mp h
      exact ⟨f :: fs, List.forall_mem_cons.mpr ⟨hf, hfs⟩, .cons hok h⟩
    · rintro ⟨fs, hfs, h⟩
      cases h with
      | @cons _ f _ fs _ _ hok h =>
        obtain ⟨hf, hfs⟩ := List.forall_mem_cons.mp hfs
        exact ⟨f, hf, hok, ih.mpr ⟨fs, hfs, h⟩⟩

/-! ### Soundness -/

theorem Matches.grows {U : Term → Prop} (h : Matches as fs S S') (hS : Confined U S)
    (has : ∀ a ∈ as, U a.toTerm) (hfs : ∀ f ∈ fs, U f.toTerm) : Grows U S S' := by
  induction h with
  | nil => exact .refl
  | cons _ _ ih =>
    obtain ⟨ha, has⟩ := List.forall_mem_cons.mp has
    obtain ⟨hf, hfs⟩ := List.forall_mem_cons.mp hfs
    have hfirst := unify_grows hS ha hf
    exact hfirst.trans (ih (hfirst.confined hS) has hfs)

theorem Matches.acyclic (h : Matches as fs S S') (hS : S.Acyclic) : S'.Acyclic :=
  ((h.grows (confined_univ hS) (fun _ _ => trivial) fun _ _ => trivial).confined
    (confined_univ hS)).acyclic

theorem Matches.le (h : Matches as fs S S') (hS : S.Acyclic) : S ≤ S' :=
  (h.grows (confined_univ hS) (fun _ _ => trivial) fun _ _ => trivial).le

/-- **A match makes every antecedent equal to its fact.** -/
theorem Matches.apply_equiv (h : Matches as fs S S') (hS : S.Acyclic) :
    List.Forall₂ (fun a f => S'.applyAtom a ≈ S'.applyAtom f) as fs := by
  induction h with
  | nil => exact .nil
  | @cons a f as fs S S' hok h ih =>
    have hT : (unify a.toTerm f.toTerm S).bindings.Acyclic := unify_acyclic hS
    refine .cons ?_ (ih hT)
    rw [Atom.equiv_iff_toTerm, Atom.toTerm_applyAtom, Atom.toTerm_applyAtom,
      ← hT.apply_apply (h.acyclic hT) (h.le hT) a.toTerm,
      ← hT.apply_apply (h.acyclic hT) (h.le hT) f.toTerm]
    exact Substitution.apply_equiv (unify_apply_equiv hS hok)

/-! ### Completeness -/

/-- **While a solution makes the antecedents equal to their facts, the match does not fail**, and the
solution solves its bindings. -/
theorem exists_matches (hS : S.Acyclic) (hθ : Solves θ S)
    (h : List.Forall₂ (fun a f => a.bind θ ≈ f.bind θ) as fs) :
    ∃ S', Matches as fs S S' ∧ Solves θ S' := by
  induction h generalizing S with
  | nil => exact ⟨S, .nil, hθ⟩
  | @cons a f as fs haf _ ih =>
    rw [Atom.equiv_iff_toTerm, Atom.toTerm_bind, Atom.toTerm_bind] at haf
    obtain ⟨hok, hsolves⟩ := unify_solves hS hθ haf
    obtain ⟨S', hS', hθ'⟩ := ih (unify_acyclic hS) hsolves
    exact ⟨S', .cons hok hS', hθ'⟩

/-! ### Ground facts -/

theorem Matches.apply_equiv_fact (h : Matches as fs S S') (hS : S.Acyclic)
    (hfs : ∀ f ∈ fs, f.isGround = true) : List.Forall₂ (fun a f => S'.applyAtom a ≈ f) as fs := by
  have hmap : fs.map S'.applyAtom = fs :=
    (List.map_congr_left fun f hf => Atom.applyAtom_of_isGround (hfs f hf)).trans (List.map_id' fs)
  have hequiv := List.forall₂_map_right_iff.mpr (h.apply_equiv hS)
  rwa [hmap] at hequiv

theorem Matches.exists_fact (h : Matches as fs S S') (hS : S.Acyclic)
    (hfs : ∀ f ∈ fs, f.isGround = true) : ∀ a ∈ as, ∃ f, f ∈ fs ∧ S'.applyAtom a ≈ f :=
  forall_exists_iff_exists_forall₂.mpr ⟨fs, fun _ hf => hf, h.apply_equiv_fact hS hfs⟩

theorem Rule.confined_antecedentVars (r : Rule) :
    Confined (fun t => t.vars ⊆ r.antecedentVars) .empty where
  acyclic := acyclic_empty
  arg := fun f args h t ht v hv => h (Term.mem_vars_app.mpr ⟨t, ht, hv⟩)
  bound := fun v t _ hv => absurd hv (by simp)

/-- **A match with ground facts** that starts without bindings gives ground terms to the variables of the
antecedents and binds no others. -/
theorem Matches.grounds {r : Rule} (h : Matches r.antecedents fs .empty S)
    (hfs : ∀ f ∈ fs, f.isGround = true) : r.Grounds fun v => S.apply (.var v) where
  ground := by
    intro v hv
    obtain ⟨a, ha, hva⟩ := Rule.mem_antecedentVars.mp hv
    obtain ⟨f, hf, haf⟩ := h.exists_fact acyclic_empty hfs a ha
    have hground : (S.apply a.toTerm).isGround = true := by
      rw [← Atom.toTerm_applyAtom]
      exact (Atom.isGround_eq_of_equiv haf).trans (hfs f hf)
    rw [← bind_apply_var, Term.isGround_iff] at hground
    refine Term.isGround_iff.mpr fun w hw => hground w ?_
    exact Term.mem_vars_bind.mpr ⟨v, hva, hw⟩
  kept := by
    intro v hv
    have hgrows : Grows (fun t => t.vars ⊆ r.antecedentVars) .empty S := by
      refine h.grows r.confined_antecedentVars (fun a ha v hv => ?_) fun f hf v hv => ?_
      · exact Rule.mem_antecedentVars.mpr ⟨a, ha, hv⟩
      · exact absurd hv (Term.isGround_iff.mp (hfs f hf) v)
    exact apply_of_unbound (hgrows.find?_eq_none (find?_empty v) fun h => hv (h (by simp)))

/-- **The bindings of a match with ground facts have one solution** among the maps that are ground on the
variables of the antecedents and keep the others. -/
theorem Matches.apply_equiv_of_solves {r : Rule} {σ : String → Term}
    (h : Matches r.antecedents fs .empty S) (hfs : ∀ f ∈ fs, f.isGround = true) (hσ : r.Grounds σ)
    (hsolves : Solves σ S) (v : String) : S.apply (.var v) ≈ σ v := by
  have hgrounds := h.grounds hfs
  by_cases hv : v ∈ r.antecedentVars
  · have hbind : (S.apply (.var v)).bind σ ≈ σ v :=
      hsolves.bind_apply (h.acyclic acyclic_empty) (.var v)
    rwa [Term.bind_eq_self_of_isGround (hgrounds.ground v hv)] at hbind
  · have hkept : S.apply (.var v) = .var v := hgrounds.kept v hv
    rw [hkept, hσ.kept v hv]

end ForwardChaining
