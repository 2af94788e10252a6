import Mathlib.Order.Bounds.Basic
import ForwardChaining.Engine
import ForwardChaining.Proofs.Saturation.Pass

/-!
# Stages

The stages of some facts under rules are the facts themselves, then these and their consequences, and so on.
A run of passes goes through the stages one by one (`Staged`), which settles what it ends with, when it ends
and what each of its passes reports: `infer_obeysStages`.

The passes list and sort their facts in an order of their own, so that the facts of a run and those of a
stage are the same as sets only.  `consequences_equiv` says that this does not matter to what comes next.
-/

namespace ForwardChaining

/-- The facts after `n` rounds, each of which adds the consequences of what is there. -/
def stage (rules : List Rule) (F : Roster Atom) : Nat → Roster Atom
  | 0 => F
  | n + 1 => (stage rules F n).insertAll (consequences rules (stage rules F n)).items

section Stage

variable {rules : List Rule} {F : Roster Atom} {a : Atom} {n : Nat}

theorem contains_stage_succ : (stage rules F (n + 1)).contains a = true ↔
    (stage rules F n).contains a = true ∨ (consequences rules (stage rules F n)).contains a = true := by
  rw [stage, Roster.contains_insertAll, ← Roster.contains_iff]

theorem stage_ground (hF : F.Ground) (n : Nat) : (stage rules F n).Ground := by
  induction n with
  | zero => exact hF
  | succ n ih =>
    intro a ha
    rcases Roster.mem_of_mem_insertAll ha with ha | ha
    · exact ih a ha
    · exact consequences_ground rules _ a ha

theorem stage_le_stage (rules : List Rule) (F : Roster Atom) {m n : Nat} (h : m ≤ n) :
    stage rules F m ≤ stage rules F n := by
  induction h with
  | refl => exact Roster.le_refl _
  | step _ ih => exact Roster.le_trans ih (Roster.le_insertAll _ _)

theorem stage_succ_equiv_iff : stage rules F (n + 1) ≈ stage rules F n ↔
    consequences rules (stage rules F n) ≤ stage rules F n := by
  constructor
  · intro h a ha
    rw [← h a]
    exact contains_stage_succ.mpr (.inr ha)
  · intro h
    refine Roster.equiv_of_le (fun a ha => ?_) (stage_le_stage rules F (Nat.le_succ n))
    exact (contains_stage_succ.mp ha).elim id (h a)

/-- **Once a stage adds nothing, none does.** -/
theorem stage_add_equiv (hF : F.Ground) (h : stage rules F (n + 1) ≈ stage rules F n) (j : Nat) :
    stage rules F (n + j) ≈ stage rules F n := by
  induction j with
  | zero => exact Setoid.refl _
  | succ j ih =>
    have hle : consequences rules (stage rules F (n + j)) ≤ stage rules F (n + j) :=
      Roster.le_trans
        (consequences_le (stage_ground hF _) (stage_ground hF _) (Roster.le_of_equiv ih))
        (Roster.le_trans (stage_succ_equiv_iff.mp h) (Roster.le_of_equiv (Setoid.symm ih)))
    exact Setoid.trans (stage_succ_equiv_iff.mpr hle) ih

/-- The facts `K` are those of stage `n`. -/
structure Staged (rules : List Rule) (F : Roster Atom) (n : Nat) (K : Roster Atom) : Prop where
  ground : K.Ground
  equiv : K ≈ stage rules F n

variable {K : Roster Atom} {number : Nat}

theorem Staged.consequences_equiv (hF : F.Ground) (h : Staged rules F n K) :
    consequences rules K ≈ consequences rules (stage rules F n) :=
  ForwardChaining.consequences_equiv h.ground (stage_ground hF n) h.equiv

/-- **A pass goes on to the next stage.** -/
theorem Staged.afterPass (hF : F.Ground) (number : Nat) (h : Staged rules F n K) :
    Staged rules F (n + 1) (afterPass rules number K) where
  ground := afterPass_ground h.ground
  equiv := by
    intro a
    rw [Bool.eq_iff_iff, contains_afterPass, contains_stage_succ, h.equiv a, h.consequences_equiv hF a]

/-- What the pass with index `n` reports: the stage that it starts from decides everything. -/
structure Pass.Reports (rules : List Rule) (F : Roster Atom) (n : Nat) (p : Pass) : Prop where
  number : p.number = n + 1
  candidates : p.candidates ≈ consequences rules (stage rules F n)
  candidateCount : p.candidates.size = (consequences rules (stage rules F n)).size
  /-- Up to equality, the new facts are those of the next stage that are not in this one. -/
  newFacts : ∀ a, (∃ b ∈ p.newFacts, b ≈ a) ↔
    (stage rules F (n + 1)).contains a = true ∧ (stage rules F n).contains a = false
  distinct : p.newFacts.Pairwise fun a b => ¬ a ≈ b
  ordered : p.newFacts.Pairwise fun a b => a.display ≤ b.display

theorem Staged.reports (hF : F.Ground) (h : Staged rules F n K) :
    (Pass.run rules (n + 1) K).Reports rules F n where
  number := rfl
  candidates := by
    rw [Pass.candidates_run]
    exact h.consequences_equiv hF
  candidateCount := by
    rw [Pass.candidates_run]
    exact Roster.size_eq_size (h.consequences_equiv hF)
  newFacts := by
    intro a
    rw [Pass.exists_mem_newFacts_run, contains_stage_succ, h.equiv a, h.consequences_equiv hF a]
    constructor
    · rintro ⟨hcons, hnew⟩
      exact ⟨.inr hcons, hnew⟩
    · rintro ⟨hold | hcons, hnew⟩
      · rw [hnew] at hold
        exact absurd hold (by decide)
      · exact ⟨hcons, hnew⟩
  distinct := Pass.newFacts_run_pairwise.imp Atom.not_equiv_iff.mpr
  ordered := Pass.newFacts_run_ordered

theorem Pass.Reports.newFacts_eq_nil_iff {p : Pass} (h : p.Reports rules F n) :
    p.newFacts = [] ↔ stage rules F (n + 1) ≈ stage rules F n := by
  constructor
  · intro hnil
    refine Roster.equiv_of_le (fun a ha => ?_) (stage_le_stage rules F (Nat.le_succ n))
    by_contra hnew
    obtain ⟨b, hb, _⟩ := (h.newFacts a).mpr ⟨ha, Bool.not_eq_true _ ▸ hnew⟩
    rw [hnil] at hb
    exact absurd hb List.not_mem_nil
  · intro hsame
    refine List.eq_nil_iff_forall_not_mem.mpr fun b hb => ?_
    obtain ⟨hnext, hnew⟩ := (h.newFacts b).mp ⟨b, hb, Setoid.refl b⟩
    rw [hsame b, hnew] at hnext
    exact absurd hnext (by decide)

/-! ### Runs through the stages -/

variable {run : Run} {left cap : Nat}

theorem Saturates.staged (hF : F.Ground) (h : Saturates rules cap 1 F run) :
    Staged rules F run.passes.length run.known ∧
      ∀ (n : Nat) (p : Pass), run.passes[n]? = some p → p.Reports rules F n := by
  have hstart : Staged rules F 0 F := ⟨hF, Setoid.refl F⟩
  obtain ⟨hend, hpasses⟩ :=
    h.invariant (P := Staged rules F) (fun _ number _ hK => hK.afterPass hF number) hstart
  rw [Nat.zero_add] at hend
  refine ⟨hend, fun n p hp => ?_⟩
  obtain ⟨K, hK, rfl⟩ := hpasses n p hp
  rw [Nat.zero_add] at hK
  rw [Nat.add_comm]
  exact hK.reports hF

/-- **A stage that a run comes to repeats the one before** exactly if the run ends there at a fixpoint. -/
theorem Saturates.stage_equiv_iff (hF : F.Ground) (h : Saturates rules cap 1 F run) {k : Nat}
    (hpos : 1 ≤ k) (hk : k ≤ run.passes.length) :
    stage rules F k ≈ stage rules F (k - 1) ↔ run.status = .fixpoint ∧ k = run.passes.length := by
  obtain ⟨n, rfl⟩ : ∃ n, k = n + 1 := ⟨k - 1, by omega⟩
  have hp := List.getElem?_eq_getElem (l := run.passes) (i := n) (by omega)
  rw [← h.newFacts_eq_nil_iff hp]
  exact ((h.staged hF).2 n _ hp).newFacts_eq_nil_iff.symm

theorem Saturates.isLeast (hF : F.Ground) (h : Saturates rules cap 1 F run)
    (hfix : run.status = .fixpoint) :
    IsLeast {k | 1 ≤ k ∧ stage rules F k ≈ stage rules F (k - 1)} run.passes.length := by
  have hpos : 1 ≤ run.passes.length := List.length_pos_iff.mpr (h.passes_ne_nil_of_fixpoint hfix)
  refine ⟨⟨hpos, (h.stage_equiv_iff hF hpos (Nat.le_refl _)).mpr ⟨hfix, rfl⟩⟩, ?_⟩
  rintro k ⟨hk, hsame⟩
  by_contra hlt
  have := ((h.stage_equiv_iff hF hk (by omega)).mp hsame).2
  omega

/-- **A run ends at a fixpoint exactly if the stages repeat within its cap.** -/
theorem Saturates.status_eq_fixpoint_iff (hF : F.Ground) (h : Saturates rules cap 1 F run) :
    run.status = .fixpoint ↔ ∃ k, 1 ≤ k ∧ k ≤ cap ∧ stage rules F k ≈ stage rules F (k - 1) := by
  constructor
  · intro hfix
    obtain ⟨⟨hpos, hsame⟩, _⟩ := h.isLeast hF hfix
    exact ⟨_, hpos, h.length_passes_le, hsame⟩
  · rintro ⟨k, hk, hcap, hsame⟩
    cases hstatus : run.status with
    | fixpoint => rfl
    | capExceeded =>
      have hlen := h.length_passes_of_capExceeded hstatus
      have hfix := ((h.stage_equiv_iff hF hk (hlen ▸ hcap)).mp hsame).1
      exact hstatus.symm.trans hfix

theorem Saturates.exists_stage (hF : F.Ground) (h : Saturates rules cap 1 F run)
    (hfix : run.status = .fixpoint) :
    ∃ n, n + 1 ≤ cap ∧ stage rules F (n + 1) ≈ stage rules F n ∧ run.known ≈ stage rules F n := by
  obtain ⟨⟨hpos, hsame⟩, _⟩ := h.isLeast hF hfix
  obtain ⟨n, hn⟩ : ∃ n, run.passes.length = n + 1 := ⟨_, (Nat.succ_pred_eq_of_pos hpos).symm⟩
  have hend := (h.staged hF).1.equiv
  have hle := h.length_passes_le
  rw [hn] at hend hsame hle
  exact ⟨n, hle, hsame, Setoid.trans hend hsame⟩

/-- **A run ends with the facts of the stage at its cap**, also if it stops early. -/
theorem Saturates.known_equiv (hF : F.Ground) (h : Saturates rules cap 1 F run) :
    run.known ≈ stage rules F cap := by
  cases hstatus : run.status with
  | capExceeded =>
    have hend := (h.staged hF).1.equiv
    rwa [h.length_passes_of_capExceeded hstatus] at hend
  | fixpoint =>
    obtain ⟨n, hn, hsame, hend⟩ := h.exists_stage hF hstatus
    obtain ⟨j, rfl⟩ := Nat.exists_eq_add_of_le (Nat.le_of_succ_le hn)
    exact Setoid.trans hend (Setoid.symm (stage_add_equiv hF hsame j))

theorem Saturates.counts (hF : F.Ground) (h : Saturates rules cap 1 F run) :
    run.passes.Pairwise fun p q => p.candidates.size ≤ q.candidates.size := by
  have hreports := (h.staged hF).2
  refine List.pairwise_iff_getElem.mpr fun i j hi hj hij => ?_
  rw [(hreports i _ (List.getElem?_eq_getElem hi)).candidateCount,
    (hreports j _ (List.getElem?_eq_getElem hj)).candidateCount]
  refine Roster.size_le_size (consequences_le (stage_ground hF i) (stage_ground hF j) ?_)
  exact stage_le_stage rules F (Nat.le_of_lt hij)

end Stage

theorem infer_saturates (e : Engine) :
    Saturates e.rules.items e.cap.val 1 e.facts.roster e.infer.run := saturate_saturates _ _ _ _

/-- The law of the stages, for an inference from the facts `F` with a cap on its passes. -/
structure ObeysStages (rules : List Rule) (F : Roster Atom) (cap : Nat) (i : Inference) : Prop where
  /-- The facts at the end are those of the stage at the cap. -/
  facts : ∀ a, i.contains a = (stage rules F cap).contains a
  status : i.status = .fixpoint ↔
    ∃ k, 1 ≤ k ∧ k ≤ cap ∧ stage rules F k ≈ stage rules F (k - 1)
  iterations : i.status = .fixpoint →
    IsLeast {k | 1 ≤ k ∧ stage rules F k ≈ stage rules F (k - 1)} i.iterations
  capped : i.status ≠ .fixpoint → i.status = .capExceeded ∧ i.iterations = cap
  reports : ∀ (n : Nat) (p : Pass), i.passes[n]? = some p → p.Reports rules F n
  /-- The initial facts and the new ones of all passes make up the facts, and no two of them are equal. -/
  partition : i.facts = F.items ++ i.passes.flatMap Pass.newFacts ∧
    (F.items ++ i.passes.flatMap Pass.newFacts).Pairwise fun a b => ¬ a ≈ b
  derived : i.derived = i.passes.flatMap Pass.newFacts
  counts : i.passes.Pairwise fun p q => p.candidates.size ≤ q.candidates.size
  newFacts_eq_nil_iff : ∀ (n : Nat) (p : Pass), i.passes[n]? = some p →
    (p.newFacts = [] ↔ i.status = .fixpoint ∧ n + 1 = i.iterations)

/-- **The law of the stages.**  Whatever an engine holds, its inference goes through the stages of its facts
under its rules, one with each pass, until a stage repeats the one before or the cap is reached. -/
theorem infer_obeysStages (e : Engine) :
    ObeysStages e.rules.items e.facts.roster e.cap.val e.infer := by
  have hF : e.facts.roster.Ground := e.facts.ground
  have hrun := infer_saturates e
  have hdistinct : e.infer.facts.Pairwise fun a b => ¬ a ≈ b :=
    e.infer.run.known.distinct.imp Atom.not_equiv_iff.mpr
  exact {
    facts := hrun.known_equiv hF
    status := hrun.status_eq_fixpoint_iff hF
    iterations := hrun.isLeast hF
    capped := fun hfix => by
      cases hstatus : e.infer.status with
      | fixpoint => exact absurd hstatus hfix
      | capExceeded => exact ⟨rfl, hrun.length_passes_of_capExceeded hstatus⟩
    reports := (hrun.staged hF).2
    partition := ⟨hrun.items, hrun.items ▸ hdistinct⟩
    derived := Roster.filter_not_contains hrun.items
    counts := hrun.counts hF
    newFacts_eq_nil_iff := fun n p hp => hrun.newFacts_eq_nil_iff hp }

/-- A run that becomes closed in its last permitted pass counts as capped. -/
example :
    (saturate [⟨[⟨"p", []⟩], ⟨"q", []⟩, ""⟩] 1 1 (.ofList [⟨"p", []⟩])).status = .capExceeded := by
  decide

end ForwardChaining
