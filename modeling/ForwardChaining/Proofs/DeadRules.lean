import ForwardChaining.Engine
import ForwardChaining.Proofs.Findings

/-!
# Dead rules

A rule is dead if it derives nothing from any ground facts, and its variables tell: an instance of a rule gives
ground terms to the variables of the antecedents and keeps all others, so that the consequent under it is ground
exactly if the antecedents mention all variables of the consequent (`Rule.Grounds.isGround_bind_iff`).  This does
not depend on the instance.  Either every instance is discarded, or none is.

In the second case the antecedents themselves, with one constant for all their variables, are facts from which
the rule derives its consequent (`Rule.exists_derive_ne_nil`).  In the first case a run of passes is the run
without the rule, apart from what it finds when it tries that rule (`saturate_without`).
-/

namespace ForwardChaining

open Substitution

variable {r s : Rule} {rules : List Rule} {number : Nat} {F known : Roster Atom} {σ : String → Term} {v : String}

namespace Rule

/-! ### What the variables tell -/

theorem mem_unboundVars : v ∈ r.unboundVars ↔ v ∈ r.consequent.vars ∧ v ∉ r.antecedentVars := by
  rw [unboundVars, List.mem_eraseDups, List.mem_filter, decide_eq_true_iff]

theorem unboundVars_eq_of_beq (h : (r == s) = true) : r.unboundVars = s.unboundVars := by
  have hcons : r.consequent.vars = s.consequent.vars := Atom.vars_eq_of_equiv (beq_iff.mp h).2
  rw [unboundVars, unboundVars, hcons, antecedentVars_eq_of_beq h]

/-- **The consequent becomes ground exactly if no variable of it is unbound.** -/
theorem Grounds.isGround_bind_iff (hσ : r.Grounds σ) :
    (r.consequent.bind σ).isGround = true ↔ r.unboundVars = [] := by
  rw [Atom.isGround, Atom.toTerm_bind, Term.isGround_iff, List.eq_nil_iff_forall_not_mem]
  constructor
  · intro hground v hv
    obtain ⟨hcons, hfree⟩ := mem_unboundVars.mp hv
    -- No instance touches such a variable, and so it is left.
    have hkept : v ∈ (σ v).vars := by
      rw [hσ.kept v hfree]
      exact List.mem_singleton_self v
    exact hground v (Term.mem_vars_bind.mpr ⟨v, hcons, hkept⟩)
  · intro hbound w hw
    obtain ⟨v, hv, hwv⟩ := Term.mem_vars_bind.mp hw
    have hant : v ∈ r.antecedentVars := by
      by_contra hfree
      exact hbound v (mem_unboundVars.mpr ⟨hv, hfree⟩)
    exact Term.isGround_iff.mp (hσ.ground v hant) w hwv

theorem isGround_of_mem_consequents (hF : F.Ground) {a : Atom} (h : a ∈ r.consequents F.items) :
    a.isGround = true ↔ r.unboundVars = [] := by
  obtain ⟨S, hS, rfl⟩ := List.mem_map.mp h
  have hσ := ((r.enumerates_instances hF).sound S hS).grounds
  rw [← Atom.bind_apply_var]
  exact hσ.isGround_bind_iff

/-- **With an unbound variable every instance is discarded.** -/
theorem discards_of_unboundVars_ne_nil (h : r.unboundVars ≠ []) (hF : F.Ground) :
    r.derive F.items = [] ∧ r.discards F.items = r.consequents F.items := by
  have hopen : ∀ a ∈ r.consequents F.items, ¬ a.isGround = true :=
    fun a ha hground => h ((isGround_of_mem_consequents hF ha).mp hground)
  rw [derive_eq, discards_eq]
  refine ⟨List.filter_eq_nil_iff.mpr hopen, List.filter_eq_self.mpr fun a ha => ?_⟩
  rw [Bool.not_eq_true', Bool.eq_false_iff]
  exact hopen a ha

/-- **Without one none is.** -/
theorem derive_of_unboundVars_eq_nil (h : r.unboundVars = []) (hF : F.Ground) :
    r.discards F.items = [] ∧ r.derive F.items = r.consequents F.items := by
  have hground : ∀ a ∈ r.consequents F.items, a.isGround = true :=
    fun a ha => (isGround_of_mem_consequents hF ha).mpr h
  rw [derive_eq, discards_eq]
  refine ⟨List.filter_eq_nil_iff.mpr fun a ha => ?_, List.filter_eq_self.mpr hground⟩
  rw [hground a ha]
  decide

/-! ### Facts on which a rule fires -/

/-- The map that gives one constant to all variables of the antecedents. -/
def freeze (r : Rule) (v : String) : Term := if v ∈ r.antecedentVars then .const (.text "") else .var v

theorem grounds_freeze (r : Rule) : r.Grounds r.freeze where
  ground := by
    intro v hv
    rw [freeze, if_pos hv]
    rfl
  kept := fun v hv => if_neg hv

def frozen (r : Rule) : Roster Atom := .ofList (r.antecedents.map (Atom.bind r.freeze))

theorem frozen_ground (r : Rule) : r.frozen.Ground := by
  intro a ha
  obtain ⟨b, hb, rfl⟩ := List.mem_map.mp (Roster.mem_of_mem_ofList ha)
  rw [Atom.isGround, Atom.toTerm_bind, Term.isGround_iff]
  intro w hw
  obtain ⟨v, hv, hwv⟩ := Term.mem_vars_bind.mp hw
  have hground := r.grounds_freeze.ground v (mem_antecedentVars.mpr ⟨b, hb, hv⟩)
  exact Term.isGround_iff.mp hground w hwv

theorem exists_derive_ne_nil (h : r.unboundVars = []) : ∃ F : Roster Atom, F.Ground ∧ r.derive F.items ≠ [] := by
  have hants : ∀ b ∈ r.antecedents, b.bind r.freeze ∈ r.frozen.toSet := by
    intro b hb
    exact Roster.contains_ofList.mpr ⟨_, List.mem_map_of_mem hb, BEq.refl _⟩
  have hyields : r.Yields r.frozen.toSet (r.consequent.bind r.freeze) :=
    ⟨r.freeze, r.grounds_freeze, hants, r.grounds_freeze.isGround_bind_iff.mpr h, Setoid.refl _⟩
  obtain ⟨d, hd, _⟩ := (exists_mem_derive_iff r.frozen_ground).mpr hyields
  exact ⟨r.frozen, r.frozen_ground, List.ne_nil_of_mem hd⟩

end Rule

/-! ### Runs without a rule -/

/-- The engine without the rules that are equal to `r`. -/
def Engine.without (e : Engine) (r : Rule) : Engine :=
  { e with rules := { items := e.rules.items.filter (· != r), distinct := e.rules.distinct.filter _ } }

/-- The pass without what was found when rules equal to `r` were tried. -/
def Pass.without (p : Pass) (r : Rule) : Pass := { p with findings := p.findings.filter (·.1 != r) }

/-- The run without what was found when rules equal to `r` were tried. -/
def Run.without (run : Run) (r : Rule) : Run := { run with passes := run.passes.map (·.without r) }

theorem flatMap_filter_of_eq_nil {α β : Type} {p : α → Bool} {g : α → List β} {l : List α}
    (h : ∀ a ∈ l, p a = false → g a = []) : (l.filter p).flatMap g = l.flatMap g := by
  induction l with
  | nil => rfl
  | cons a l ih =>
    have hrest := ih fun b hb => h b (List.mem_cons_of_mem _ hb)
    by_cases ha : p a = true
    · rw [List.filter_cons_of_pos ha, List.flatMap_cons, List.flatMap_cons, hrest]
    · rw [List.filter_cons_of_neg ha, List.flatMap_cons, h a (by simp) (Bool.eq_false_iff.mpr ha), hrest,
        List.nil_append]

theorem findings_without (r : Rule) (rules : List Rule) (facts : List Atom) :
    (rules.filter (· != r)).flatMap (fun s => (s.findings facts).map fun f => (s, f)) =
      (rules.flatMap fun s => (s.findings facts).map fun f => (s, f)).filter (·.1 != r) := by
  induction rules with
  | nil => rfl
  | cons s rules ih =>
    have hown : ∀ f ∈ (s.findings facts).map fun f => (s, f), (f.1 != r) = (s != r) := by
      intro f hf
      obtain ⟨_, _, rfl⟩ := List.mem_map.mp hf
      rfl
    rw [List.flatMap_cons, List.filter_append, ← ih, List.filter_cons]
    by_cases hs : (s != r) = true
    · have hkept : ((s.findings facts).map fun f => (s, f)).filter (·.1 != r) =
          (s.findings facts).map fun f => (s, f) :=
        List.filter_eq_self.mpr fun f hf => (hown f hf).trans hs
      rw [if_pos hs, List.flatMap_cons, hkept]
    · have hnone : ((s.findings facts).map fun f => (s, f)).filter (·.1 != r) = [] :=
        List.filter_eq_nil_iff.mpr fun f hf => (hown f hf).symm ▸ hs
      rw [if_neg hs, hnone, List.nil_append]

section Dead

variable (h : r.unboundVars ≠ []) (hknown : known.Ground)

include h hknown

theorem Rule.derive_eq_nil_of_beq (hs : (s == r) = true) : s.derive known.items = [] := by
  rw [← unboundVars_eq_of_beq hs] at h
  exact (discards_of_unboundVars_ne_nil h hknown).1

theorem consequences_without : consequences (rules.filter (· != r)) known = consequences rules known := by
  have hnone : ∀ s ∈ rules, (s != r) = false → s.derive known.items = [] := by
    intro s _ hs
    exact Rule.derive_eq_nil_of_beq h hknown (Bool.not_eq_eq_eq_not.mp hs)
  rw [consequences, consequences, flatMap_filter_of_eq_nil hnone]

/-- **A pass derives the same without a dead rule.** -/
theorem Pass.run_without :
    Pass.run (rules.filter (· != r)) number known = (Pass.run rules number known).without r := by
  have hcandidates : (Pass.run (rules.filter (· != r)) number known).candidates =
      (Pass.run rules number known).candidates := by
    rw [candidates_run, candidates_run, consequences_without h hknown]
  have hfindings := findings_without r rules known.items
  rw [without, Pass.mk.injEq]
  refine ⟨rfl, hfindings, hcandidates, ?_⟩
  exact congrArg (fun c : Roster Atom => sortBy Atom.display (c.items.filter fun a => !known.contains a)) hcandidates

theorem saturate_without (left number : Nat) :
    saturate (rules.filter (· != r)) left number known = (saturate rules left number known).without r := by
  induction left generalizing number known with
  | zero => rfl
  | succ left ih =>
    rw [saturate, saturate, Pass.run_without h hknown]
    show (if (Pass.run rules number known).newFacts.isEmpty = true then _ else _) = _
    by_cases hnew : (Pass.run rules number known).newFacts.isEmpty = true
    · rw [if_pos hnew, if_pos hnew]
      rfl
    · have hground : (afterPass rules number known).Ground := afterPass_ground hknown
      have hrest := ih hground (number + 1)
      rw [if_neg hnew, if_neg hnew]
      exact congrArg (fun run : Run => { run with passes := (Pass.run rules number known).without r :: run.passes })
        hrest

theorem derived?_eq_none_of_mem_run_findings {f : Rule × Finding}
    (hf : f ∈ (Pass.run rules number known).findings) (hr : (f.1 == r) = true) : f.2.derived? = none := by
  have hfound : f.2 ∈ f.1.findings known.items := (Pass.mem_findings_run.mp hf).2
  exact List.filterMap_eq_nil_iff.mp (Rule.derive_eq_nil_of_beq h hknown hr) f.2 hfound

end Dead

/-- **The variables of a rule decide whether it is dead.**  If some variable of the consequent is not mentioned by
the antecedents, then on all ground facts the rule derives nothing and discards its consequent under every instance;
and whatever an engine holds, no pass of its inference has a fact that is derived by the rule, and without the rule
the run is the same but for what is found when the rule is tried.  If there is no such variable, then on all ground
facts nothing is discarded, and there are ground facts on which a fact is derived. -/
theorem unboundVars_decides (r : Rule) :
    (r.unboundVars ≠ [] →
      (∀ F : Roster Atom, F.Ground → r.derive F.items = [] ∧ r.discards F.items = r.consequents F.items) ∧
      ∀ e : Engine, (e.without r).infer.run = e.infer.run.without r ∧
        ∀ p ∈ e.infer.passes, ∀ f ∈ p.findings, (f.1 == r) = true → f.2.derived? = none) ∧
    (r.unboundVars = [] →
      (∀ F : Roster Atom, F.Ground → r.discards F.items = [] ∧ r.derive F.items = r.consequents F.items) ∧
      ∃ F : Roster Atom, F.Ground ∧ r.derive F.items ≠ []) := by
  refine ⟨fun h => ⟨fun F hF => Rule.discards_of_unboundVars_ne_nil h hF, fun e => ⟨?_, ?_⟩⟩,
    fun h => ⟨fun F hF => Rule.derive_of_unboundVars_eq_nil h hF, Rule.exists_derive_ne_nil h⟩⟩
  · exact saturate_without h e.facts.ground e.cap.val 1
  · intro p hp f hf hr
    -- Every pass starts from ground facts, on which a rule equal to `r` derives nothing either.
    obtain ⟨number, K, hK, rfl⟩ := (infer_saturates e).exists_ground e.facts.ground hp
    exact derived?_eq_none_of_mem_run_findings h hK hf hr

/-- A rule whose consequent has a variable of its own, inside a compound term, is tried on a fact beside a rule that
fires; with that variable in an antecedent it would fire too. -/
theorem unboundVars_decides_knows :
    let human : Atom := ⟨"human", [.var "X"]⟩
    let knows : Atom := ⟨"knows", [.var "X", .app "friend" [.var "Y"]]⟩
    let dead : Rule := ⟨[human], knows, ""⟩
    let live : Rule := ⟨[human, ⟨"human", [.var "Y"]⟩], knows, ""⟩
    let e : Engine := (({} : Engine).addStatements {
      facts := [⟨"human", [.const (.text "Socrates")]⟩]
      rules := [{ dead with name := "acquaintance" }, ⟨[human], ⟨"mortal", [.var "X"]⟩, ""⟩] }).1
    dead.unboundVars = ["Y"] ∧ (e.infer.run.without dead).status = .fixpoint ∧
      (e.without dead).infer.run = e.infer.run.without dead ∧
      (e.infer.passes.map fun p => (p.findings.length, (p.without dead).findings.length)) = [(2, 1), (2, 1)] ∧
      live.unboundVars = [] ∧ ∃ F : Roster Atom, F.Ground ∧ live.derive F.items ≠ [] := by
  intro human knows dead live e
  have hdead : dead.unboundVars = ["Y"] := by decide
  have hlive : live.unboundVars = [] := by decide
  have hsame := (((unboundVars_decides dead).1 (hdead ▸ List.cons_ne_nil _ _)).2 e).1
  exact ⟨hdead, by decide, hsame, by decide, hlive, ((unboundVars_decides live).2 hlive).2⟩

end ForwardChaining
