import ForwardChaining.Proofs.Saturation.Stages

/-!
# Facts in any order

Known facts and candidates are sets, and a set may list what it holds in any order.  `Pass.Arises` describes
a pass that takes the known facts in some order and sorts the new ones by their displays, in some order
where displays are the same; `MayRun` is a run of such passes and `Engine.MayInfer` an inference.  The
inference that an engine makes is one of them (`Engine.mayInfer_infer`).

None of these orders can be seen in the outcome.  The candidates of a pass are the consequences of what is
known (`Pass.Arises.candidates_equiv`), and these depend only on the sets of facts and rules, up to
equality.  So passes that start from the same sets agree and lead to the same sets
(`Pass.Arises.agrees`, `Pass.Arises.insertAll_equiv`), and by induction on the passes so do runs:
`infer_dependsOnSets`.
-/

namespace ForwardChaining

variable {rules rules' : List Rule} {left number : Nat} {known known' : Roster Atom} {p q : Pass}
  {run run' : Run}

/-! ### Passes and runs -/

/-- `p` is a pass over the known facts, taken in some order. -/
structure Pass.Arises (rules : List Rule) (number : Nat) (known : Roster Atom) (p : Pass) : Prop where
  number : p.number = number
  findings : ∃ order : List Atom, order.Perm known.items ∧
    p.findings = rules.flatMap fun r => (r.findings order).map fun f => (r, f)
  candidates : p.candidates = Roster.ofList (p.findings.filterMap fun f => f.2.derived?)
  newFacts : p.newFacts.Perm (p.candidates.items.filter fun a => !known.contains a)
  ordered : p.newFacts.Pairwise fun a b => a.display ≤ b.display

theorem Pass.arises_run (rules : List Rule) (number : Nat) (known : Roster Atom) :
    (Pass.run rules number known).Arises rules number known where
  number := rfl
  findings := ⟨known.items, .refl _, rfl⟩
  candidates := rfl
  newFacts := sortBy_perm _ _
  ordered := sortBy_pairwise _ _

/-- `run` is a run of at most `left` passes, each over its facts in some order. -/
inductive MayRun (rules : List Rule) : Nat → Nat → Roster Atom → Run → Prop
  | capped {number : Nat} {known : Roster Atom} :
      MayRun rules 0 number known { known, status := .capExceeded, passes := [] }
  | fixpoint {left number : Nat} {known : Roster Atom} {p : Pass} :
      p.Arises rules number known → p.newFacts = [] →
      MayRun rules (left + 1) number known { known, status := .fixpoint, passes := [p] }
  | pass {left number : Nat} {known : Roster Atom} {p : Pass} {run : Run} :
      p.Arises rules number known → p.newFacts ≠ [] →
      MayRun rules left (number + 1) (known.insertAll p.newFacts) run →
      MayRun rules (left + 1) number known { run with passes := p :: run.passes }

theorem Saturates.mayRun (h : Saturates rules left number known run) :
    MayRun rules left number known run := by
  induction h with
  | capped => exact .capped
  | fixpoint hnew => exact .fixpoint (Pass.arises_run ..) hnew
  | pass hnew _ ih => exact .pass (Pass.arises_run ..) hnew ih

/-- `i` is an inference of the engine, with its facts taken in some order in each pass. -/
def Engine.MayInfer (e : Engine) (i : Inference) : Prop :=
  ∃ run, MayRun e.rules.items e.cap.val 1 e.facts.roster run ∧ i = { e.infer with run }

theorem Engine.mayInfer_infer (e : Engine) : e.MayInfer e.infer :=
  ⟨e.infer.run, (infer_saturates e).mayRun, rfl⟩

/-! ### What a pass depends on -/

theorem Pass.Arises.candidates_equiv (hknown : known.Ground) (h : p.Arises rules number known) :
    p.candidates ≈ consequences rules known := by
  obtain ⟨order, hperm, hfindings⟩ := h.findings
  let G : Roster Atom := {
    items := order
    distinct := hperm.symm.pairwise known.distinct fun hab => BEq.comm.trans hab }
  have hG : G.Ground := fun a ha => hknown a (hperm.mem_iff.mp ha)
  have hcandidates : p.candidates = consequences rules G := by
    rw [h.candidates, hfindings]
    exact (Pass.candidates_run : (Pass.run rules number G).candidates = consequences rules G)
  rw [hcandidates]
  exact consequences_equiv hG hknown (Roster.equiv_of_perm hperm)

theorem Pass.Arises.exists_mem_newFacts (hknown : known.Ground) (h : p.Arises rules number known)
    {a : Atom} : (∃ b ∈ p.newFacts, b ≈ a) ↔
      (consequences rules known).contains a = true ∧ known.contains a = false := by
  rw [← h.candidates_equiv hknown a, ← Roster.exists_mem_filter_not_contains]
  exact exists_congr fun b => and_congr_left fun _ => h.newFacts.mem_iff

theorem Pass.Arises.ground (hknown : known.Ground) (h : p.Arises rules number known) :
    (known.insertAll p.newFacts).Ground := by
  intro a ha
  rcases Roster.mem_of_mem_insertAll ha with ha | ha
  · exact hknown a ha
  · have hcons := ((h.exists_mem_newFacts hknown).mp ⟨a, ha, Setoid.refl a⟩).1
    exact Roster.isGround_of_contains (consequences_ground rules known) hcons

/-! ### Agreement -/

def SameFacts (xs ys : List Atom) : Prop := ∀ a, (∃ b ∈ xs, b ≈ a) ↔ ∃ b ∈ ys, b ≈ a

/-- The passes report the same. -/
structure Pass.Agrees (p q : Pass) : Prop where
  number : p.number = q.number
  candidateCount : p.candidates.size = q.candidates.size
  newFacts : SameFacts p.newFacts q.newFacts

/-- The inferences have the same facts, ended in the same way and made passes that report the same. -/
structure Inference.Agrees (i j : Inference) : Prop where
  facts : SameFacts i.facts j.facts
  derived : SameFacts i.derived j.derived
  status : i.status = j.status
  iterations : i.iterations = j.iterations
  passes : List.Forall₂ Pass.Agrees i.passes j.passes

theorem SameFacts.eq_nil_iff {xs ys : List Atom} (h : SameFacts xs ys) : xs = [] ↔ ys = [] := by
  simp only [List.eq_nil_iff_forall_not_mem]
  constructor
  · intro hxs b hb
    obtain ⟨a, ha, _⟩ := (h b).mpr ⟨b, hb, Setoid.refl b⟩
    exact hxs a ha
  · intro hys a ha
    obtain ⟨b, hb, _⟩ := (h a).mp ⟨a, ha, Setoid.refl a⟩
    exact hys b hb

def SameRules (rules rules' : List Rule) : Prop :=
  (∀ r ∈ rules, ∃ s ∈ rules', (r == s) = true) ∧ ∀ s ∈ rules', ∃ r ∈ rules, (s == r) = true

theorem consequences_equiv_of_rules (hrules : SameRules rules rules') (hground : known.Ground)
    (hground' : known'.Ground) (hknown : known ≈ known') :
    consequences rules known ≈ consequences rules' known' :=
  Roster.equiv_of_le (consequences_le_of_rules hground hground' hrules.1 (Roster.le_of_equiv hknown))
    (consequences_le_of_rules hground' hground hrules.2 (Roster.le_of_equiv (Setoid.symm hknown)))

section Pass

variable (hrules : SameRules rules rules') (hground : known.Ground) (hground' : known'.Ground)
  (hknown : known ≈ known') (hp : p.Arises rules number known) (hq : q.Arises rules' number known')

include hrules hground hground' hknown hp hq

/-- **Passes that start from the same sets report the same.** -/
theorem Pass.Arises.agrees : p.Agrees q where
  number := hp.number.trans hq.number.symm
  candidateCount := by
    refine Roster.size_eq_size (Setoid.trans (hp.candidates_equiv hground) ?_)
    exact Setoid.trans (consequences_equiv_of_rules hrules hground hground' hknown)
      (Setoid.symm (hq.candidates_equiv hground'))
  newFacts := by
    intro a
    rw [hp.exists_mem_newFacts hground, hq.exists_mem_newFacts hground', hknown a,
      consequences_equiv_of_rules hrules hground hground' hknown a]

/-- **They lead to the same sets.** -/
theorem Pass.Arises.insertAll_equiv :
    known.insertAll p.newFacts ≈ known'.insertAll q.newFacts := by
  have hnew := (Pass.Arises.agrees hrules hground hground' hknown hp hq).newFacts
  intro a
  rw [Bool.eq_iff_iff, Roster.contains_insertAll, Roster.contains_insertAll, hknown a]
  exact or_congr_right (hnew a)

end Pass

/-- **Runs that start from the same sets agree**, whatever the orders in their passes. -/
theorem MayRun.agrees (hrules : SameRules rules rules') (hground : known.Ground)
    (hground' : known'.Ground) (hknown : known ≈ known') (h : MayRun rules left number known run)
    (h' : MayRun rules' left number known' run') :
    run.known ≈ run'.known ∧ run.status = run'.status ∧
      List.Forall₂ Pass.Agrees run.passes run'.passes := by
  induction h generalizing known' run' with
  | capped =>
    cases h'
    exact ⟨hknown, rfl, .nil⟩
  | fixpoint hp hnew =>
    cases h' with
    | fixpoint hq _ => exact ⟨hknown, rfl, .cons (hp.agrees hrules hground hground' hknown hq) .nil⟩
    | pass hq hnew' _ =>
      exact absurd ((hp.agrees hrules hground hground' hknown hq).newFacts.eq_nil_iff.mp hnew) hnew'
  | pass hp hnew _ ih =>
    cases h' with
    | fixpoint hq hnew' =>
      exact absurd ((hp.agrees hrules hground hground' hknown hq).newFacts.eq_nil_iff.mpr hnew') hnew
    | pass hq _ hrun' =>
      obtain ⟨hend, hstatus, hpasses⟩ := ih (hp.ground hground) (hq.ground hground')
        (hp.insertAll_equiv hrules hground hground' hknown hq) hrun'
      exact ⟨hend, hstatus, .cons (hp.agrees hrules hground hground' hknown hq) hpasses⟩

theorem sameRules_of_equiv {R R' : RuleStore} (h : R ≈ R') : SameRules R.items R'.items :=
  ⟨fun _ hr => Roster.exists_mem_of_le (Roster.le_of_equiv h) hr,
    fun _ hr => Roster.exists_mem_of_le (Roster.le_of_equiv (Setoid.symm h)) hr⟩

/-- **An inference depends on the facts and the rules as sets only.**  If two engines have the same cap and
hold the same facts and the same rules up to equality, all their inferences agree, whatever the orders in
which the facts are taken; and the inference that an engine makes is one of these. -/
theorem infer_dependsOnSets (e e' : Engine) (hcap : e.cap = e'.cap)
    (hfacts : e.facts.roster ≈ e'.facts.roster) (hrules : e.rules ≈ e'.rules) :
    e.MayInfer e.infer ∧ e'.MayInfer e'.infer ∧
      ∀ i j, e.MayInfer i → e'.MayInfer j → i.Agrees j := by
  refine ⟨e.mayInfer_infer, e'.mayInfer_infer, ?_⟩
  rintro _ _ ⟨run, hrun, rfl⟩ ⟨run', hrun', rfl⟩
  rw [← hcap] at hrun'
  obtain ⟨hknown, hstatus, hpasses⟩ :=
    hrun.agrees (sameRules_of_equiv hrules) e.facts.ground e'.facts.ground hfacts hrun'
  exact {
    facts := by
      intro a
      exact Roster.contains_iff.symm.trans ((Bool.eq_iff_iff.mp (hknown a)).trans Roster.contains_iff)
    derived := by
      intro a
      refine Roster.exists_mem_filter_not_contains.trans (Iff.trans ?_
        Roster.exists_mem_filter_not_contains.symm)
      show _ ∧ e.facts.roster.contains a = false ↔ _ ∧ e'.facts.roster.contains a = false
      rw [hknown a, hfacts a]
    status := hstatus
    iterations := hpasses.length_eq
    passes := hpasses }

/-- Facts and rules in another order, with a duplicate, other names, and true for one. -/
theorem infer_dependsOnSets_permuted :
    let e : Engine := (({} : Engine).addStatements {
      facts := [⟨"p", [.const (.int 1)]⟩, ⟨"q", [.const (.text "a")]⟩]
      rules := [⟨[⟨"p", [.var "X"]⟩], ⟨"r", [.var "X"]⟩, "first"⟩,
        ⟨[⟨"r", [.var "X"]⟩, ⟨"q", [.var "Y"]⟩], ⟨"s", [.var "X", .var "Y"]⟩, "second"⟩] }).1
    let e' : Engine := (({} : Engine).addStatements {
      facts := [⟨"q", [.const (.text "a")]⟩, ⟨"p", [.const (.bool true)]⟩, ⟨"p", [.const (.int 1)]⟩]
      rules := [⟨[⟨"r", [.var "X"]⟩, ⟨"q", [.var "Y"]⟩], ⟨"s", [.var "X", .var "Y"]⟩, ""⟩,
        ⟨[⟨"p", [.var "X"]⟩], ⟨"r", [.var "X"]⟩, "other"⟩] }).1
    e.cap = e'.cap ∧ e.facts.roster ≈ e'.facts.roster ∧ e.rules ≈ e'.rules ∧ e.infer.Agrees e'.infer := by
  intro e e'
  have hfacts : e.facts.roster ≈ e'.facts.roster :=
    Roster.equiv_of_le (Roster.le_of_forall_mem (by decide)) (Roster.le_of_forall_mem (by decide))
  have hrules : e.rules ≈ e'.rules :=
    Roster.equiv_of_le (Roster.le_of_forall_mem (by decide)) (Roster.le_of_forall_mem (by decide))
  obtain ⟨he, he', h⟩ := infer_dependsOnSets e e' rfl hfacts hrules
  exact ⟨rfl, hfacts, hrules, h _ _ he he'⟩

end ForwardChaining
