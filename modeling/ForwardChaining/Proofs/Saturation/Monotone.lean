import ForwardChaining.Proofs.Saturation.Stages

/-!
# More facts, more rules, more passes

Every stage grows with the facts and the rules (`stage_le_stage_of_rules`) and with the number of rounds
(`stage_le_stage`).  Two runs need not be in step for this to compare them: one may have stopped at a fixpoint
where the other goes on, but a run that has stopped still has all the facts of the stage at its cap.  So an
inference from less never finds more, `infer_monotone`.
-/

namespace ForwardChaining

variable {rules rules' : List Rule} {F G : Roster Atom}

/-- **Stages grow with the facts and the rules**, whichever of several equal ones they are held by. -/
theorem stage_le_stage_of_rules (hF : F.Ground) (hG : G.Ground)
    (hrules : ∀ r ∈ rules, ∃ s ∈ rules', (r == s) = true) (h : F ≤ G) (n : Nat) :
    stage rules F n ≤ stage rules' G n := by
  induction n with
  | zero => exact h
  | succ n ih =>
    intro a ha
    rcases contains_stage_succ.mp ha with ha | ha
    · exact contains_stage_succ.mpr (.inl (ih a ha))
    · refine contains_stage_succ.mpr (.inr ?_)
      exact consequences_le_of_rules (stage_ground hF n) (stage_ground hG n) hrules ih a ha

/-- **An inference from less never finds more.**  If all facts and all rules of an engine are held by another
one, whose cap is no lower, then every fact that the first infers the other one infers as well, however the
two inferences end. -/
theorem infer_monotone (e e' : Engine) (hfacts : ∀ a, e.facts.contains a = true → e'.facts.contains a = true)
    (hrules : ∀ r, e.rules.contains r = true → e'.rules.contains r = true) (hcap : e.cap.val ≤ e'.cap.val) :
    ∀ a, e.infer.contains a = true → e'.infer.contains a = true := by
  intro a ha
  have hend := (infer_saturates e).known_equiv e.facts.ground
  have hend' := (infer_saturates e').known_equiv e'.facts.ground
  have hstage : (stage e.rules.items e.facts.roster e.cap.val).contains a = true :=
    (hend a).symm.trans ha
  have hmore : (stage e'.rules.items e'.facts.roster e.cap.val).contains a = true :=
    stage_le_stage_of_rules e.facts.ground e'.facts.ground (fun _ hr => Roster.exists_mem_of_le hrules hr)
      hfacts _ a hstage
  exact (hend' a).trans (stage_le_stage _ _ hcap a hmore)

/-- The first inference stops at a fixpoint, and the other one is capped. -/
theorem infer_monotone_stopped :
    let mortality : Rule := ⟨[⟨"human", [.var "X"]⟩], ⟨"mortal", [.var "X"]⟩, ""⟩
    let counting : Rule := ⟨[⟨"num", [.var "X"]⟩], ⟨"num", [.app "succ" [.var "X"]]⟩, ""⟩
    let socrates : Atom := ⟨"human", [.const (.text "Socrates")]⟩
    let zero : Atom := ⟨"num", [.const (.int 0)]⟩
    let two : Cap := ⟨2, by decide⟩
    let e : Engine := (({ cap := two } : Engine).addStatements { facts := [socrates], rules := [mortality] }).1
    let e' : Engine := (({ cap := two } : Engine).addStatements {
      facts := [zero, socrates], rules := [counting, { mortality with name := "mortality" }] }).1
    (∀ a, e.facts.contains a = true → e'.facts.contains a = true) ∧
      (∀ r, e.rules.contains r = true → e'.rules.contains r = true) ∧ e.cap.val ≤ e'.cap.val ∧
      e.infer.status = .fixpoint ∧ e'.infer.status = .capExceeded ∧
      ∀ a, e.infer.contains a = true → e'.infer.contains a = true := by
  intro mortality counting socrates zero two e e'
  have hfacts : ∀ a, e.facts.contains a = true → e'.facts.contains a = true :=
    Roster.le_of_forall_mem (r := e.facts.roster) (s := e'.facts.roster) (by decide)
  have hrules : ∀ r, e.rules.contains r = true → e'.rules.contains r = true :=
    Roster.le_of_forall_mem (r := e.rules) (s := e'.rules) (by decide)
  have hcap : e.cap.val ≤ e'.cap.val := by decide
  refine ⟨hfacts, hrules, hcap, by decide, by decide, ?_⟩
  exact infer_monotone e e' hfacts hrules hcap

end ForwardChaining
