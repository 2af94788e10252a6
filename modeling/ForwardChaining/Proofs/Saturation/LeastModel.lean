import Mathlib.Data.Set.Basic
import ForwardChaining.Proofs.Saturation.Stages
import ForwardChaining.Proofs.Saturation.Termination

/-!
# Least models

A model of some facts under rules is a set of ground atoms that holds the facts and every ground instance of
a consequent whose antecedents it holds.  The models have a least one, their intersection.

* `IsModel.stage_subset`: every stage is part of every model, since each round adds what rules yield.
* `isModel_stage`: a stage that adds nothing is a model.

So an inference derives nothing that is not in the least model, and when it ends at a fixpoint it has all of
it: `infer_leastModel`.
-/

namespace ForwardChaining

variable {facts : List Atom} {rules : List Rule} {F : Roster Atom} {M : Set Atom}

/-- `M` is a set of ground atoms up to equality that holds the facts and is closed under the rules. -/
structure IsModel (facts : List Atom) (rules : List Rule) (M : Set Atom) : Prop where
  ground : ∀ a ∈ M, a.isGround = true
  equiv : ∀ a ∈ M, ∀ b, a ≈ b → b ∈ M
  facts : ∀ a ∈ facts, a ∈ M
  closed : ∀ r ∈ rules, ∀ σ, r.Grounds σ → (∀ b ∈ r.antecedents, b.bind σ ∈ M) →
    (r.consequent.bind σ).isGround = true → r.consequent.bind σ ∈ M

def leastModel (facts : List Atom) (rules : List Rule) : Set Atom :=
  {a | ∀ M, IsModel facts rules M → a ∈ M}

theorem IsModel.mem_of_yields (h : IsModel facts rules M) {r : Rule} (hr : r ∈ rules) {a : Atom}
    (ha : r.Yields M a) : a ∈ M := by
  obtain ⟨σ, hσ, hants, hground, hcons⟩ := ha
  exact h.equiv _ (h.closed r hr σ hσ hants hground) a hcons

theorem isModel_ground (hfacts : ∀ a ∈ facts, a.isGround = true) :
    IsModel facts rules {a | a.isGround = true} where
  ground := fun _ ha => ha
  equiv := fun _ ha _ hab => (Atom.isGround_eq_of_equiv hab).symm.trans ha
  facts := hfacts
  closed := fun _ _ _ _ _ hground => hground

/-- **The models have a least one.** -/
theorem isLeast_leastModel (hfacts : ∀ a ∈ facts, a.isGround = true) :
    IsLeast {M | IsModel facts rules M} (leastModel facts rules) := by
  constructor
  · exact {
      ground := fun a ha => ha _ (isModel_ground hfacts)
      equiv := fun a ha b hab M hM => hM.equiv a (ha M hM) b hab
      facts := fun a ha M hM => hM.facts a ha
      closed := fun r hr σ hσ hants hground M hM =>
        hM.closed r hr σ hσ (fun b hb => hants b hb M hM) hground }
  · exact fun M hM a ha => ha M hM

/-! ### Stages and models -/

/-- **Every stage is part of every model.** -/
theorem IsModel.stage_subset (h : IsModel F.items rules M) (hF : F.Ground) (n : Nat) :
    (stage rules F n).toSet ⊆ M := by
  induction n with
  | zero =>
    intro a ha
    obtain ⟨b, hb, hba⟩ := Roster.contains_iff.mp ha
    exact h.equiv b (h.facts b hb) a hba
  | succ n ih =>
    intro a ha
    rcases contains_stage_succ.mp ha with ha | ha
    · exact ih ha
    · obtain ⟨r, hr, hyields⟩ := (contains_consequences_iff (stage_ground hF n)).mp ha
      exact h.mem_of_yields hr (hyields.mono ih)

/-- **A stage that adds nothing is a model.** -/
theorem isModel_stage (hF : F.Ground) {n : Nat} (h : stage rules F (n + 1) ≈ stage rules F n) :
    IsModel F.items rules (stage rules F n).toSet where
  ground := fun a ha => Roster.isGround_of_contains (stage_ground hF n) ha
  equiv := fun a ha b hab => ((stage rules F n).contains_congr hab).symm.trans ha
  facts := fun a ha => stage_le_stage rules F (Nat.zero_le n) a (Roster.contains_of_mem ha)
  closed := by
    intro r hr σ hσ hants hground
    refine stage_succ_equiv_iff.mp h _ ((contains_consequences_iff (stage_ground hF n)).mpr ?_)
    exact ⟨r, hr, σ, hσ, hants, hground, Setoid.refl _⟩

/-! ### Runs and models -/

variable {run : Run} {cap : Nat}

theorem Saturates.subset_leastModel (hF : F.Ground) (h : Saturates rules cap 1 F run) :
    run.known.toSet ⊆ leastModel F.items rules := by
  intro a ha M hM
  exact hM.stage_subset hF cap (Roster.le_of_equiv (h.known_equiv hF) a ha)

/-- **A run that ends at a fixpoint has the whole least model.** -/
theorem Saturates.leastModel_subset (hF : F.Ground) (h : Saturates rules cap 1 F run)
    (hfix : run.status = .fixpoint) : leastModel F.items rules ⊆ run.known.toSet := by
  intro a ha
  obtain ⟨n, _, hsame, hend⟩ := h.exists_stage hF hfix
  have hmem : a ∈ (stage rules F n).toSet := ha _ (isModel_stage hF hsame)
  exact Roster.le_of_equiv (Setoid.symm hend) a hmem

/-- **Inference computes the least model, as far as its cap lets it.**  Every inference of an engine comes to
an end.  Its facts are ground, they hold the initial facts and are part of the least model; and if it ends
at a fixpoint, they are the least model. -/
theorem infer_leastModel (e : Engine) :
    IsLeast {M | IsModel e.facts.facts e.rules.items M} (leastModel e.facts.facts e.rules.items) ∧
    Unbounded.infer e.facts e.rules e.cap.val = some e.infer ∧
    (∀ a ∈ e.infer.facts, a.isGround = true) ∧
    (∀ a, e.facts.contains a = true → e.infer.contains a = true) ∧
    (∀ a, e.infer.contains a = true → a ∈ leastModel e.facts.facts e.rules.items) ∧
    (e.infer.status = .fixpoint →
      ∀ a, e.infer.contains a = true ↔ a ∈ leastModel e.facts.facts e.rules.items) := by
  have hF : e.facts.roster.Ground := e.facts.ground
  have hrun := infer_saturates e
  have hsub := hrun.subset_leastModel hF
  refine ⟨isLeast_leastModel hF, Unbounded.infer_eq e, (hrun.staged hF).1.ground, ?_, hsub, ?_⟩
  · intro a ha
    obtain ⟨b, hb, hba⟩ := Roster.contains_iff.mp ha
    refine Roster.contains_iff.mpr ⟨b, ?_, hba⟩
    rw [hrun.items]
    exact List.mem_append_left _ hb
  · exact fun hfix a => ⟨fun ha => hsub ha, fun ha => hrun.leastModel_subset hF hfix ha⟩

end ForwardChaining
