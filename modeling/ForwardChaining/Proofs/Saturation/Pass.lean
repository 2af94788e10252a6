import ForwardChaining.Inference
import ForwardChaining.Proofs.Derivation
import ForwardChaining.Proofs.Sorting

/-!
# Passes and runs of passes

A pass finds the consequences of the known facts, and its new facts are those that were not known, each once
and in the order of their displays.

A run makes its passes one after another (`Saturates`).  Whatever the facts and the rules:

* `Saturates.items`: its facts are the ones at the start, followed by the new ones of each pass.
* `Saturates.newFacts_eq_nil_iff`: only the last pass of a run that ends at a fixpoint finds nothing new.
* `Saturates.length_passes_of_capExceeded`: a run that is capped has made all its passes.
* `Saturates.invariant`: what one pass preserves holds before every pass and at the end.
* `Saturates.forall_newFacts`: what rules yield is of one kind, if they yield it from facts of that kind.
-/

namespace ForwardChaining

variable {rules : List Rule} {number left : Nat} {known : Roster Atom} {a b : Atom}

namespace Pass

/-! ### One pass -/

theorem mem_findings_run {f : Rule × Finding} :
    f ∈ (Pass.run rules number known).findings ↔ f.1 ∈ rules ∧ f.2 ∈ f.1.findings known.items := by
  obtain ⟨r, g⟩ := f
  show (r, g) ∈ rules.flatMap (fun r => (r.findings known.items).map fun g => (r, g)) ↔ _
  rw [List.mem_flatMap]
  constructor
  · rintro ⟨s, hs, h⟩
    obtain ⟨_, hg, heq⟩ := List.mem_map.mp h
    cases heq
    exact ⟨hs, hg⟩
  · rintro ⟨hr, hg⟩
    exact ⟨r, hr, List.mem_map_of_mem hg⟩

theorem candidates_run : (Pass.run rules number known).candidates = consequences rules known := by
  have hderived : (rules.flatMap fun r => (r.findings known.items).map fun f => (r, f)).filterMap
      (fun f => f.2.derived?) = rules.flatMap fun r => r.derive known.items := by
    rw [List.filterMap_flatMap]
    refine List.flatMap_congr fun r _ => ?_
    rw [List.filterMap_map]
    rfl
  exact congrArg Roster.ofList hderived

theorem newFacts_run_perm : (Pass.run rules number known).newFacts.Perm
    ((consequences rules known).items.filter fun a => !known.contains a) := by
  have hcandidates : (Pass.run rules number known).candidates = consequences rules known :=
    candidates_run
  rw [← hcandidates]
  exact sortBy_perm _ _

theorem mem_newFacts_run : a ∈ (Pass.run rules number known).newFacts ↔
    a ∈ (consequences rules known).items ∧ known.contains a = false := by
  rw [newFacts_run_perm.mem_iff, List.mem_filter, Bool.not_eq_true']

/-- **The new facts are the consequences that were not known**, up to equality. -/
theorem exists_mem_newFacts_run : (∃ b ∈ (Pass.run rules number known).newFacts, b ≈ a) ↔
    (consequences rules known).contains a = true ∧ known.contains a = false := by
  rw [← Roster.exists_mem_filter_not_contains]
  exact exists_congr fun b => and_congr_left fun _ => newFacts_run_perm.mem_iff

theorem newFacts_run_pairwise :
    (Pass.run rules number known).newFacts.Pairwise fun a b => (a == b) = false := by
  refine newFacts_run_perm.symm.pairwise ((consequences rules known).distinct.filter _) ?_
  intro a b hab
  rwa [BEq.comm]

theorem newFacts_run_ordered :
    (Pass.run rules number known).newFacts.Pairwise fun a b => a.display ≤ b.display :=
  sortBy_pairwise _ _

end Pass

/-- The facts that are known after a pass. -/
def afterPass (rules : List Rule) (number : Nat) (known : Roster Atom) : Roster Atom :=
  known.insertAll (Pass.run rules number known).newFacts

theorem items_afterPass : (afterPass rules number known).items =
    known.items ++ (Pass.run rules number known).newFacts :=
  Roster.items_insertAll (fun _ ha => (Pass.mem_newFacts_run.mp ha).2) Pass.newFacts_run_pairwise

/-- **A pass adds the consequences of what was known.** -/
theorem contains_afterPass : (afterPass rules number known).contains a = true ↔
    known.contains a = true ∨ (consequences rules known).contains a = true := by
  rw [afterPass, Roster.contains_insertAll]
  constructor
  · rintro (h | h)
    · exact .inl h
    · exact .inr (Pass.exists_mem_newFacts_run.mp h).1
  · rintro (h | h)
    · exact .inl h
    · by_cases hknown : known.contains a = true
      · exact .inl hknown
      · exact .inr (Pass.exists_mem_newFacts_run.mpr ⟨h, Bool.not_eq_true _ ▸ hknown⟩)

theorem afterPass_ground (h : known.Ground) : (afterPass rules number known).Ground := by
  intro a ha
  rw [items_afterPass, List.mem_append] at ha
  rcases ha with ha | ha
  · exact h a ha
  · exact consequences_ground rules known a (Pass.mem_newFacts_run.mp ha).1

/-! ### Runs -/

/-- A run of at most `left` passes, the first of which has the given number: all its passes are made, or the
next one finds nothing new, or it finds something and the run goes on with that. -/
inductive Saturates (rules : List Rule) : Nat → Nat → Roster Atom → Run → Prop
  | capped {number : Nat} {known : Roster Atom} :
      Saturates rules 0 number known { known, status := .capExceeded, passes := [] }
  | fixpoint {left number : Nat} {known : Roster Atom} :
      (Pass.run rules number known).newFacts = [] →
      Saturates rules (left + 1) number known
        { known, status := .fixpoint, passes := [Pass.run rules number known] }
  | pass {left number : Nat} {known : Roster Atom} {run : Run} :
      (Pass.run rules number known).newFacts ≠ [] →
      Saturates rules left (number + 1) (afterPass rules number known) run →
      Saturates rules (left + 1) number known
        { run with passes := Pass.run rules number known :: run.passes }

theorem saturate_saturates (rules : List Rule) (left number : Nat) (known : Roster Atom) :
    Saturates rules left number known (saturate rules left number known) := by
  induction left generalizing number known with
  | zero => exact .capped
  | succ left ih =>
    rw [saturate]
    by_cases h : (Pass.run rules number known).newFacts = []
    · rw [h]
      exact .fixpoint h
    · rw [if_neg (mt List.isEmpty_iff.mp h)]
      exact .pass h (ih _ _)

variable {run : Run}

/-- **A run only adds facts**: those at its end are those at its start and the new ones of each pass. -/
theorem Saturates.items (h : Saturates rules left number known run) :
    run.known.items = known.items ++ run.passes.flatMap Pass.newFacts := by
  induction h with
  | capped => exact (List.append_nil _).symm
  | fixpoint hnew => rw [List.flatMap_cons, hnew, List.flatMap_nil, List.append_nil, List.append_nil]
  | pass _ _ ih => rw [ih, items_afterPass, List.append_assoc, List.flatMap_cons]

theorem Saturates.length_passes_le (h : Saturates rules left number known run) :
    run.passes.length ≤ left := by
  induction h with
  | capped => exact Nat.le_refl _
  | fixpoint _ => exact Nat.succ_le_succ (Nat.zero_le _)
  | pass _ _ ih => exact Nat.succ_le_succ ih

theorem Saturates.length_passes_of_capExceeded (h : Saturates rules left number known run)
    (hcap : run.status = .capExceeded) : run.passes.length = left := by
  induction h with
  | capped => rfl
  | fixpoint _ => exact absurd hcap (by simp)
  | pass _ _ ih => rw [List.length_cons, ih hcap]

theorem Saturates.passes_ne_nil_of_fixpoint (h : Saturates rules left number known run)
    (hfix : run.status = .fixpoint) : run.passes ≠ [] := by
  cases h with
  | capped => exact absurd hfix (by simp)
  | fixpoint _ => exact List.cons_ne_nil _ _
  | pass _ _ => exact List.cons_ne_nil _ _

/-- **Only the last pass of a run that ends at a fixpoint finds nothing new.** -/
theorem Saturates.newFacts_eq_nil_iff (h : Saturates rules left number known run) {n : Nat} {p : Pass}
    (hp : run.passes[n]? = some p) :
    p.newFacts = [] ↔ run.status = .fixpoint ∧ n + 1 = run.passes.length := by
  induction h generalizing n with
  | capped => exact absurd hp (by simp)
  | fixpoint hnew =>
    cases n with
    | zero =>
      obtain rfl := Option.some.inj hp
      exact ⟨fun _ => ⟨rfl, rfl⟩, fun _ => hnew⟩
    | succ n => exact absurd hp (by simp)
  | @pass left number known run hnew hrun ih =>
    cases n with
    | zero =>
      obtain rfl := Option.some.inj hp
      refine ⟨fun h => absurd h hnew, fun ⟨hfix, hlen⟩ => ?_⟩
      -- A run that goes on to a fixpoint has another pass.
      have := List.length_pos_iff.mpr (hrun.passes_ne_nil_of_fixpoint hfix)
      rw [List.length_cons] at hlen
      omega
    | succ n =>
      rw [List.getElem?_cons_succ] at hp
      rw [ih hp, List.length_cons, Nat.add_right_cancel_iff]

/-- **What a pass preserves holds before each pass of a run, and at its end.** -/
theorem Saturates.invariant {P : Nat → Roster Atom → Prop}
    (hstep : ∀ n number known, P n known → P (n + 1) (afterPass rules number known))
    (h : Saturates rules left number known run) {k : Nat} (hk : P k known) :
    P (k + run.passes.length) run.known ∧
      ∀ n p, run.passes[n]? = some p →
        ∃ K, P (k + n) K ∧ p = Pass.run rules (number + n) K := by
  induction h generalizing k with
  | capped => exact ⟨hk, fun _ _ hp => absurd hp (by simp)⟩
  | @fixpoint left number known hnew =>
    have hsame : afterPass rules number known = known := by
      rw [afterPass, hnew]
      rfl
    refine ⟨hsame ▸ hstep k number known hk, fun n p hp => ?_⟩
    cases n with
    | zero => exact ⟨known, hk, (Option.some.inj hp).symm⟩
    | succ n => exact absurd hp (by simp)
  | @pass left number known run _ _ ih =>
    obtain ⟨hend, hpasses⟩ := ih (hstep k number known hk)
    refine ⟨?_, fun n p hp => ?_⟩
    · rw [List.length_cons, ← Nat.add_assoc, Nat.add_right_comm]
      exact hend
    · cases n with
      | zero => exact ⟨known, hk, (Option.some.inj hp).symm⟩
      | succ n =>
        rw [← Nat.add_assoc, ← Nat.add_assoc, Nat.add_right_comm, Nat.add_right_comm number]
        exact hpasses n p hp

/-- **The new facts of a run are of the kind that rules yield**, if the facts at its start are of a kind from
which they yield it. -/
theorem Saturates.forall_newFacts {P Q : Atom → Prop} (hQP : ∀ a, Q a → P a)
    (hrules : ∀ r ∈ rules, ∀ K : Roster Atom, (∀ b ∈ K.items, P b) → ∀ a, r.Yields K.toSet a → Q a)
    (h : Saturates rules left number known run) (hground : known.Ground) (hknown : ∀ b ∈ known.items, P b) :
    ∀ a ∈ run.passes.flatMap Pass.newFacts, Q a := by
  have hnew : ∀ number (K : Roster Atom), K.Ground → (∀ b ∈ K.items, P b) →
      ∀ a ∈ (Pass.run rules number K).newFacts, Q a := by
    intro number K hground hK a ha
    have hcons := Roster.contains_of_mem (Pass.mem_newFacts_run.mp ha).1
    obtain ⟨r, hr, hyields⟩ := (contains_consequences_iff hground).mp hcons
    exact hrules r hr K hK a hyields
  have hstep : ∀ (_ : Nat) (number : Nat) (K : Roster Atom), (K.Ground ∧ ∀ b ∈ K.items, P b) →
      (afterPass rules number K).Ground ∧ ∀ b ∈ (afterPass rules number K).items, P b := by
    rintro _ number K ⟨hground, hK⟩
    refine ⟨afterPass_ground hground, fun b hb => ?_⟩
    rw [items_afterPass, List.mem_append] at hb
    exact hb.elim (hK b) fun hb => hQP b (hnew number K hground hK b hb)
  have hpasses := (h.invariant (P := fun _ K => K.Ground ∧ ∀ b ∈ K.items, P b) hstep (k := 0)
    ⟨hground, hknown⟩).2
  intro a ha
  obtain ⟨p, hp, ha⟩ := List.mem_flatMap.mp ha
  obtain ⟨n, hn, rfl⟩ := List.mem_iff_getElem.mp hp
  obtain ⟨K, ⟨hground, hK⟩, hrun⟩ := hpasses n _ (List.getElem?_eq_getElem hn)
  rw [hrun] at ha
  exact hnew _ K hground hK a ha

/-- **Every pass of a run starts from ground facts**, if the run does. -/
theorem Saturates.exists_ground (h : Saturates rules left number known run) (hground : known.Ground) {p : Pass}
    (hp : p ∈ run.passes) : ∃ number K, K.Ground ∧ p = Pass.run rules number K := by
  obtain ⟨n, hn, rfl⟩ := List.mem_iff_getElem.mp hp
  have hpasses := (h.invariant (P := fun _ K => K.Ground) (fun _ _ _ hK => afterPass_ground hK) (k := 0) hground).2
  obtain ⟨K, hK, hrun⟩ := hpasses n _ (List.getElem?_eq_getElem hn)
  exact ⟨_, K, hK, hrun⟩

end ForwardChaining
