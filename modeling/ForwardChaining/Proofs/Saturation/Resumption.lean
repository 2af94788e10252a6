import ForwardChaining.Proofs.Engine.Stores
import ForwardChaining.Proofs.Saturation.Monotone

/-!
# Going on where a run has stopped

A run that has been capped can be taken up again: the facts that it ends with are given to a new engine with
the same rules, which makes more passes.  The stages of those facts are the later stages of the first ones
(`stage_add`), and stages do not depend on how the facts and the rules are held and listed
(`stage_equiv_stage`), so that nothing is lost between the two runs: they end with the same facts and in the
same way as a single one whose cap is the sum of theirs, `infer_resumes`.

The boundary between the runs may be anywhere.  If the first run has closed its facts without noticing, in its
last pass, then the second one notices in its first pass, as the single run does one pass later.
-/

namespace ForwardChaining

variable {rules rules' : List Rule} {F G : Roster Atom}

/-! ### Stages of stages -/

theorem stage_add (rules : List Rule) (F : Roster Atom) (m n : Nat) :
    stage rules F (m + n) = stage rules (stage rules F m) n := by
  induction n with
  | zero => rfl
  | succ n ih => rw [← Nat.add_assoc, stage, ih, stage]

/-- **Stages depend on the sets of facts and rules only.** -/
theorem stage_equiv_stage (hF : F.Ground) (hG : G.Ground) (hfacts : F ≈ G)
    (hrules : ∀ r ∈ rules, ∃ s ∈ rules', (r == s) = true) (hrules' : ∀ s ∈ rules', ∃ r ∈ rules, (s == r) = true)
    (n : Nat) : stage rules F n ≈ stage rules' G n :=
  Roster.equiv_of_le (stage_le_stage_of_rules hF hG hrules (Roster.le_of_equiv hfacts) n)
    (stage_le_stage_of_rules hG hF hrules' (Roster.le_of_equiv (Setoid.symm hfacts)) n)

theorem stage_succ_equiv_of_le (hF : F.Ground) {k m : Nat} (h : stage rules F (k + 1) ≈ stage rules F k)
    (hkm : k ≤ m) : stage rules F (m + 1) ≈ stage rules F m := by
  obtain ⟨j, rfl⟩ := Nat.exists_eq_add_of_le hkm
  exact Setoid.trans (stage_add_equiv hF h (j + 1)) (Setoid.symm (stage_add_equiv hF h j))

/-- **Stages repeat within two caps together exactly if they do so from the first cap on**, since once they
repeat they always do. -/
theorem exists_stage_repeats_iff (hF : F.Ground) {m n : Nat} (hn : 1 ≤ n) :
    (∃ k, 1 ≤ k ∧ k ≤ m + n ∧ stage rules F k ≈ stage rules F (k - 1)) ↔
      ∃ k, 1 ≤ k ∧ k ≤ n ∧ stage rules F (m + k) ≈ stage rules F (m + (k - 1)) := by
  constructor
  · rintro ⟨k, hk, hle, hsame⟩
    by_cases hkm : k ≤ m
    · -- The stages repeat before the first cap, and so they do behind it.
      obtain ⟨i, rfl⟩ : ∃ i, k = i + 1 := ⟨k - 1, by omega⟩
      exact ⟨1, Nat.le_refl 1, hn, stage_succ_equiv_of_le hF hsame (by omega)⟩
    · obtain ⟨j, rfl⟩ : ∃ j, k = m + (j + 1) := ⟨k - m - 1, by omega⟩
      exact ⟨j + 1, by omega, by omega, hsame⟩
  · rintro ⟨k, hk, hle, hsame⟩
    refine ⟨m + k, by omega, by omega, ?_⟩
    rwa [Nat.add_sub_assoc hk]

/-! ### Two runs and one -/

def Cap.add (m n : Cap) : Cap := ⟨m.val + n.val, Nat.le_add_right_of_le m.property⟩

/-- The engine that is given some facts and rules anew, to go on with another cap. -/
def Engine.resumed (n : Cap) (facts : List Atom) (rules : List Rule) : Engine :=
  (({ cap := n } : Engine).addStatements { facts, rules }).1

section Resumed

variable {e : Engine} {facts : List Atom} (n : Cap)

theorem Engine.resumed_cap : (Engine.resumed n facts rules).cap = n :=
  (addStatements_gains { cap := n } { facts, rules }).cap

theorem Engine.contains_resumed_facts (hground : ∀ a ∈ facts, a.isGround = true) {a : Atom} :
    (Engine.resumed n facts rules).facts.contains a = true ↔ ∃ b ∈ facts, b ≈ a := by
  have h := (addStatements_gains { cap := n } { facts, rules }).facts
  rw [List.filter_eq_self.mpr hground] at h
  rw [FactStore.contains, resumed, h]
  exact Roster.contains_ofList

theorem Engine.contains_resumed_rules (facts : List Atom) {r : Rule} :
    (Engine.resumed n facts rules).rules.contains r = true ↔ ∃ s ∈ rules, (s == r) = true := by
  rw [resumed, (addStatements_gains { cap := n } { facts, rules }).rules]
  exact Roster.contains_ofList

/-- **A run that is taken up again goes through the later stages of the run before.** -/
theorem Engine.stage_resumed (hfacts : facts.Perm e.infer.facts) (hrules : rules.Perm e.rules.items)
    (k : Nat) :
    stage (resumed n facts rules).rules.items (resumed n facts rules).facts.roster k ≈
      stage e.rules.items e.facts.roster (e.cap.val + k) := by
  have hF : e.facts.roster.Ground := e.facts.ground
  have hrun := infer_saturates e
  have hground : ∀ a ∈ facts, a.isGround = true := fun a ha =>
    (hrun.staged hF).1.ground a (hfacts.mem_iff.mp ha)
  have hsame : (resumed n facts rules).facts.roster ≈ stage e.rules.items e.facts.roster e.cap.val := by
    refine Setoid.trans (fun a => ?_) (hrun.known_equiv hF)
    rw [Bool.eq_iff_iff]
    refine (contains_resumed_facts n hground).trans (Iff.trans ?_ Roster.contains_iff.symm)
    exact exists_congr fun b => and_congr_left fun _ => hfacts.mem_iff
  rw [stage_add]
  refine stage_equiv_stage (resumed n facts rules).facts.ground (stage_ground hF _) hsame ?_ ?_ k
  · intro r hr
    obtain ⟨s, hs, hsr⟩ := (contains_resumed_rules n facts).mp (Roster.contains_of_mem hr)
    exact ⟨s, hrules.mem_iff.mp hs, BEq.symm hsr⟩
  · intro s hs
    have hmem := (contains_resumed_rules n facts).mpr ⟨s, hrules.mem_iff.mpr hs, BEq.refl s⟩
    obtain ⟨r, hr, hrs⟩ := Roster.contains_iff.mp hmem
    exact ⟨r, hr, BEq.symm hrs⟩

/-- An inference that starts where the stages repeat makes one pass, which derives nothing. -/
theorem infer_of_stage_repeats
    (h : stage e.rules.items e.facts.roster 1 ≈ stage e.rules.items e.facts.roster 0) :
    e.infer.derived = [] ∧ e.infer.iterations = 1 ∧ e.infer.status = .fixpoint := by
  have hF : e.facts.roster.Ground := e.facts.ground
  have hrun := infer_saturates e
  have hfix : e.infer.run.status = .fixpoint :=
    (hrun.status_eq_fixpoint_iff hF).mpr ⟨1, Nat.le_refl 1, e.cap.property, h⟩
  have hleast := hrun.isLeast hF hfix
  have hone : e.infer.run.passes.length = 1 :=
    Nat.le_antisymm (hleast.2 ⟨Nat.le_refl 1, h⟩) hleast.1.1
  obtain ⟨p, hp⟩ := List.length_eq_one_iff.mp hone
  have hnew : p.newFacts = [] := by
    refine (hrun.newFacts_eq_nil_iff (n := 0) ?_).mpr ⟨hfix, hone.symm⟩
    rw [hp]
    rfl
  have hderived : e.infer.derived = e.infer.run.passes.flatMap Pass.newFacts :=
    Roster.filter_not_contains hrun.items
  refine ⟨?_, hone, hfix⟩
  rw [hderived, hp, List.flatMap_singleton, hnew]

/-- **A capped run can be taken up again.**  Whatever an engine holds, give the facts that it infers and its
rules, in any order, to a new engine with a cap of its own.  Then the two inferences together end with the
same facts and in the same way as a single one whose cap is the sum of the two.  If already the first one
ends at a fixpoint, the second one makes one pass and derives nothing. -/
theorem infer_resumes (e : Engine) (n : Cap) (facts : List Atom) (rules : List Rule)
    (hfacts : facts.Perm e.infer.facts) (hrules : rules.Perm e.rules.items) :
    let rest := Engine.resumed n facts rules
    let whole : Engine := { e with cap := e.cap.add n }
    (∀ a, rest.infer.contains a = whole.infer.contains a) ∧ rest.infer.status = whole.infer.status ∧
      (e.infer.status = .fixpoint →
        rest.infer.derived = [] ∧ rest.infer.iterations = 1 ∧ rest.infer.status = .fixpoint) := by
  intro rest whole
  have hF : e.facts.roster.Ground := e.facts.ground
  have hcap : rest.cap = n := Engine.resumed_cap n
  have hstage := Engine.stage_resumed n hfacts hrules
  have hrest := infer_saturates rest
  have hwhole := infer_saturates whole
  rw [hcap] at hrest
  refine ⟨?_, ?_, ?_⟩
  · intro a
    have hend : rest.infer.run.known ≈ stage e.rules.items e.facts.roster (e.cap.val + n.val) :=
      Setoid.trans (hrest.known_equiv rest.facts.ground) (hstage n.val)
    exact Setoid.trans hend (Setoid.symm (hwhole.known_equiv hF)) a
  · have hsame : rest.infer.status = .fixpoint ↔ whole.infer.status = .fixpoint := by
      refine (hrest.status_eq_fixpoint_iff rest.facts.ground).trans (Iff.trans ?_
        ((exists_stage_repeats_iff hF n.property).symm.trans (hwhole.status_eq_fixpoint_iff hF).symm))
      refine exists_congr fun k => and_congr_right fun _ => and_congr_right fun _ => ?_
      exact ⟨fun h => Setoid.trans (Setoid.symm (hstage k)) (Setoid.trans h (hstage (k - 1))),
        fun h => Setoid.trans (hstage k) (Setoid.trans h (Setoid.symm (hstage (k - 1))))⟩
    cases hw : whole.infer.status with
    | fixpoint => exact hsame.mpr hw
    | capExceeded =>
      cases hr : rest.infer.status with
      | fixpoint =>
        rw [hsame.mp hr] at hw
        cases hw
      | capExceeded => rfl
  · intro hfix
    refine infer_of_stage_repeats ?_
    obtain ⟨k, hk, hrepeats, _⟩ := (infer_saturates e).exists_stage hF hfix
    have hsame := stage_succ_equiv_of_le hF hrepeats (Nat.le_of_succ_le hk)
    exact Setoid.trans (hstage 1) (Setoid.trans hsame (Setoid.symm (hstage 0)))

/-- The first run closes its facts in its last pass without noticing, and is capped; the second one is given
them in another order. -/
theorem infer_resumes_closed :
    let first : Rule := ⟨[⟨"p", [.var "X"]⟩], ⟨"q", [.var "X"]⟩, ""⟩
    let second : Rule := ⟨[⟨"q", [.var "X"]⟩], ⟨"r", [.app "f" [.var "X"]]⟩, ""⟩
    let one : Cap := ⟨1, by decide⟩
    let two : Cap := ⟨2, by decide⟩
    let e : Engine := (({ cap := two } : Engine).addStatements {
      facts := [⟨"p", [.const (.int 1)]⟩], rules := [first, second] }).1
    let rest := Engine.resumed one e.infer.facts.reverse [second, first]
    let whole : Engine := { e with cap := e.cap.add one }
    e.infer.status = .capExceeded ∧ e.infer.facts.reverse.Perm e.infer.facts ∧
      [second, first].Perm e.rules.items ∧ rest.infer.status = .fixpoint ∧
      (∀ a, rest.infer.contains a = whole.infer.contains a) ∧ rest.infer.status = whole.infer.status := by
  intro first second one two e rest whole
  have hfacts : e.infer.facts.reverse.Perm e.infer.facts := List.reverse_perm _
  have hrules : [second, first].Perm e.rules.items := List.Perm.swap first second []
  obtain ⟨hsame, hstatus, _⟩ := infer_resumes e one _ _ hfacts hrules
  exact ⟨by decide, hfacts, hrules, by decide, hsame, hstatus⟩

end Resumed

end ForwardChaining
