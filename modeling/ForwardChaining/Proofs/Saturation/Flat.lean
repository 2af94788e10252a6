import Mathlib.Algebra.Ring.Nat
import Mathlib.Data.List.Sections
import ForwardChaining.Proofs.Saturation.Stages
import ForwardChaining.Proofs.Subterms

/-!
# Flat rules

A rule is flat if every argument of its consequent is a variable or ground: it builds no terms.  The variables of
an antecedent that matches a fact stand for subterms of the fact's arguments, so that all arguments of what flat
rules derive are found among the subterms of what there was at the beginning, their `vocabulary`:

* `vocabulary_closed`: with a term its subterms are in the vocabulary.
* `Rule.Yields.within`: from facts with arguments in the vocabulary a flat rule yields such facts, and so do runs.

There are only so many atoms with arguments in the vocabulary (`length_possibleFacts`), and every pass but the last
derives a new one (`Saturates.length_passes_le_length_newFacts`).  A run that is permitted more passes than that
ends at a fixpoint: `infer_saturates_of_flat`.
-/

namespace ForwardChaining

variable {rules : List Rule} {F : Roster Atom} {V : Roster Term} {a : Atom} {t s : Term}

/-! ### The vocabulary -/

/-- Every argument of the consequent is a variable or ground. -/
def Rule.IsFlat (r : Rule) : Prop := ∀ t ∈ r.consequent.args, t.isVar = true ∨ t.isGround = true

instance (r : Rule) : Decidable r.IsFlat :=
  inferInstanceAs (Decidable (∀ t ∈ r.consequent.args, t.isVar = true ∨ t.isGround = true))

def givenTerms (rules : List Rule) (F : Roster Atom) : List Term :=
  F.items.flatMap Atom.args ++ (rules.flatMap fun r => r.consequent.args).filter Term.isGround

/-- All subterms of these, each once. -/
def vocabulary (rules : List Rule) (F : Roster Atom) : Roster Term :=
  .ofList ((givenTerms rules F).flatMap Term.subterms)

/-- The functors of the consequents, each with its number of arguments. -/
def signature (rules : List Rule) : List (String × Nat) :=
  (rules.map fun r => (r.consequent.functor, r.consequent.args.length)).eraseDups

/-- How many atoms there are with such a functor and with arguments in the vocabulary. -/
def factBound (rules : List Rule) (F : Roster Atom) : Nat :=
  ((signature rules).map fun h => (vocabulary rules F).size ^ h.2).sum

theorem contains_vocabulary_of_mem (h : t ∈ givenTerms rules F) : (vocabulary rules F).contains t = true :=
  Roster.contains_ofList.mpr ⟨t, List.mem_flatMap.mpr ⟨t, h, t.mem_subterms_self⟩, BEq.refl t⟩

/-- **The vocabulary is closed under subterms.** -/
theorem vocabulary_closed (h : (vocabulary rules F).contains t = true) (hs : s ∈ t.subterms) :
    (vocabulary rules F).contains s = true := by
  obtain ⟨u, hu, hut⟩ := Roster.contains_ofList.mp h
  obtain ⟨g, hg, hug⟩ := List.mem_flatMap.mp hu
  obtain ⟨w, hw, hsw⟩ := Term.exists_mem_subterms_of_equiv (Setoid.symm hut) hs
  exact Roster.contains_ofList.mpr
    ⟨w, List.mem_flatMap.mpr ⟨g, hg, Term.mem_subterms_trans hug hw⟩, BEq.symm hsw⟩

def Atom.Within (V : Roster Term) (a : Atom) : Prop := ∀ t ∈ a.args, V.contains t = true

/-- The atom has the functor and as many arguments as one of the consequents. -/
def Atom.HasHead (rules : List Rule) (a : Atom) : Prop := (a.functor, a.args.length) ∈ signature rules

theorem Atom.Within.of_equiv {b : Atom} (h : a.Within V) (hab : a ≈ b) : b.Within V := by
  intro u hu
  have hargs := (Term.app_equiv_app.mp (Setoid.symm hab)).2
  obtain ⟨t, ht, hut⟩ := forall_exists_iff_exists_forall₂.mpr ⟨a.args, fun _ ht => ht, hargs⟩ u hu
  rw [V.contains_congr hut]
  exact h t ht

/-! ### What flat rules yield -/

/-- **The variables of an antecedent stand for subterms of a fact.** -/
theorem contains_of_mem_vars {σ : String → Term} {v : String} {b : Atom} (hv : v ∈ b.vars)
    (hb : (b.bind σ).Within (vocabulary rules F)) : (vocabulary rules F).contains (σ v) = true := by
  obtain ⟨w, hw, hvw⟩ := Term.mem_vars_app.mp hv
  exact vocabulary_closed (hb _ (List.mem_map_of_mem hw)) (Term.mem_subterms_bind hvw)

/-- **A flat rule yields atoms with arguments in the vocabulary** from such atoms. -/
theorem Rule.Yields.within {r : Rule} {K : Roster Atom} (hr : r ∈ rules) (hflat : r.IsFlat)
    (hK : ∀ b ∈ K.items, b.Within (vocabulary rules F)) (h : r.Yields K.toSet a) :
    a.HasHead rules ∧ a.Within (vocabulary rules F) := by
  obtain ⟨σ, hσ, hants, hground, hcons⟩ := h
  obtain ⟨hfunctor, hargs⟩ := Term.app_equiv_app.mp hcons
  constructor
  · have hlength : r.consequent.args.length = a.args.length := by
      rw [← hargs.length_eq]
      exact (List.length_map _).symm
    rw [Atom.HasHead, signature, List.mem_eraseDups, ← hlength]
    exact List.mem_map.mpr ⟨r, hr, Prod.ext hfunctor rfl⟩
  · refine Atom.Within.of_equiv (fun u hu => ?_) hcons
    have huground : u.isGround = true := Term.isGround_app.mp hground u hu
    obtain ⟨t, ht, rfl⟩ := List.mem_map.mp hu
    rcases hflat t ht with hvar | htground
    · cases t with
      | var v =>
        -- A variable that no antecedent mentions would not have become ground.
        have hv : v ∈ r.antecedentVars := by
          by_contra hfree
          rw [Term.bind_var, hσ.kept v hfree] at huground
          exact absurd huground (by simp [Term.isGround])
        obtain ⟨b, hb, hvb⟩ := Rule.mem_antecedentVars.mp hv
        obtain ⟨f, hf, hfb⟩ := Roster.contains_iff.mp (hants b hb)
        exact contains_of_mem_vars hvb ((hK f hf).of_equiv hfb)
      | const c => exact absurd hvar (by simp [Term.isVar])
      | app f args => exact absurd hvar (by simp [Term.isVar])
    · rw [Term.bind_eq_self_of_isGround htground]
      refine contains_vocabulary_of_mem (List.mem_append_right _ (List.mem_filter.mpr ⟨?_, htground⟩))
      exact List.mem_flatMap.mpr ⟨r, hr, ht⟩

/-! ### Productive passes -/

variable {left number : Nat} {known : Roster Atom} {run : Run}

theorem Saturates.length_passes_le_length_newFacts (h : Saturates rules left number known run) :
    run.passes.length ≤ (run.passes.flatMap Pass.newFacts).length + if run.status = .fixpoint then 1 else 0 := by
  induction h with
  | capped => exact Nat.zero_le _
  | fixpoint _ => exact Nat.le_add_left _ _
  | @pass left number known run hnew _ ih =>
    have hpos := List.length_pos_iff.mpr hnew
    rw [List.flatMap_cons, List.length_append, List.length_cons]
    show _ ≤ _ + if run.status = .fixpoint then 1 else 0
    omega

/-! ### Counting -/

theorem length_sections_replicate {α : Type} (us : List α) (n : Nat) :
    (List.replicate n us).sections.length = us.length ^ n := by
  induction n with
  | zero => rfl
  | succ n ih => simp [List.replicate_succ, List.sections, List.length_flatMap, ih, Nat.pow_succ]

theorem mem_sections_replicate {α : Type} {us ts : List α} (h : ∀ t ∈ ts, t ∈ us) :
    ts ∈ (List.replicate ts.length us).sections := by
  rw [List.mem_sections]
  induction ts with
  | nil => exact .nil
  | cons t ts ih =>
    obtain ⟨ht, hts⟩ := List.forall_mem_cons.mp h
    exact .cons ht (ih hts)

def possibleFacts (rules : List Rule) (F : Roster Atom) : List Atom :=
  (signature rules).flatMap fun h =>
    (List.replicate h.2 (vocabulary rules F).items).sections.map (Atom.mk h.1)

theorem length_possibleFacts : (possibleFacts rules F).length = factBound rules F := by
  rw [possibleFacts, factBound, List.length_flatMap]
  refine congrArg List.sum (List.map_congr_left fun h _ => ?_)
  rw [List.length_map, length_sections_replicate]
  rfl

theorem exists_mem_possibleFacts (hhead : a.HasHead rules) (hwithin : a.Within (vocabulary rules F)) :
    ∃ b ∈ possibleFacts rules F, a ≈ b := by
  have hargs : ∀ t ∈ a.args, ∃ u, u ∈ (vocabulary rules F).items ∧ t ≈ u := by
    intro t ht
    obtain ⟨u, hu, hut⟩ := Roster.contains_iff.mp (hwithin t ht)
    exact ⟨u, hu, BEq.symm hut⟩
  obtain ⟨us, hus, hall⟩ := forall_exists_iff_exists_forall₂.mp hargs
  refine ⟨⟨a.functor, us⟩, ?_, Term.app_equiv_app.mpr ⟨rfl, hall⟩⟩
  rw [Atom.HasHead, hall.length_eq] at hhead
  exact List.mem_flatMap.mpr ⟨_, hhead, List.mem_map_of_mem (mem_sections_replicate hus)⟩

/-! ### Inferences -/

/-- **Flat rules saturate.**  What an engine with flat rules derives has the functor of a consequent and has its
arguments in the vocabulary, and if the cap exceeds the number of such facts it ends at a fixpoint.  Whatever the
rules, there is at most one pass more than there are derived facts. -/
theorem infer_saturates_of_flat (e : Engine) :
    ((∀ r ∈ e.rules.items, r.IsFlat) →
      (∀ a ∈ e.infer.derived, a.HasHead e.rules.items ∧
        a.Within (vocabulary e.rules.items e.facts.roster)) ∧
      (factBound e.rules.items e.facts.roster < e.cap.val → e.infer.status = .fixpoint)) ∧
    e.infer.iterations ≤ e.infer.derived.length + 1 := by
  have hrun := infer_saturates e
  have hderived : e.infer.derived = e.infer.run.passes.flatMap Pass.newFacts :=
    Roster.filter_not_contains hrun.items
  have hcount := hrun.length_passes_le_length_newFacts
  rw [← hderived] at hcount
  refine ⟨fun hflat => ?_, ?_⟩
  · have hwithin : ∀ a ∈ e.infer.derived, a.HasHead e.rules.items ∧
        a.Within (vocabulary e.rules.items e.facts.roster) := by
      rw [hderived]
      refine hrun.forall_newFacts (P := Atom.Within _) (fun _ => And.right)
        (fun r hr K hK a hyields => hyields.within hr (hflat r hr) hK) e.facts.ground fun b hb t ht => ?_
      exact contains_vocabulary_of_mem (List.mem_append_left _ (List.mem_flatMap.mpr ⟨b, hb, ht⟩))
    refine ⟨hwithin, fun hcap => ?_⟩
    have hdistinct : e.infer.derived.Pairwise fun a b => (a == b) = false :=
      e.infer.run.known.distinct.filter _
    have hle : e.infer.derived.length ≤ factBound e.rules.items e.facts.roster := by
      rw [← length_possibleFacts]
      refine Roster.length_le_length hdistinct fun a ha => ?_
      exact exists_mem_possibleFacts (hwithin a ha).1 (hwithin a ha).2
    cases hstatus : e.infer.run.status with
    | fixpoint => exact hstatus
    | capExceeded =>
      have hall := hrun.length_passes_of_capExceeded hstatus
      rw [hstatus, if_neg (by decide)] at hcount
      omega
  · refine hcount.trans (Nat.add_le_add_left ?_ _)
    split
    · exact Nat.le_refl 1
    · exact Nat.zero_le 1

/-- A fact is taken apart, and its parts are swapped; one consequent has a ground argument of its own. -/
theorem infer_saturates_of_flat_destructuring :
    let e : Engine := (({} : Engine).addStatements {
      facts := [⟨"box", [.app "pair" [.const (.int 1), .app "f" [.const (.text "a")]]]⟩]
      rules := [⟨[⟨"box", [.app "pair" [.var "X", .var "Y"]]⟩], ⟨"p", [.var "X", .var "Y"]⟩, ""⟩,
        ⟨[⟨"p", [.var "X", .var "Y"]⟩], ⟨"p", [.var "Y", .var "X"]⟩, ""⟩,
        ⟨[⟨"p", [.var "X", .app "f" [.var "Y"]]⟩], ⟨"q", [.app "g" [.const (.text "b")]]⟩, ""⟩] }).1
    (∀ r ∈ e.rules.items, r.IsFlat) ∧ factBound e.rules.items e.facts.roster < e.cap.val ∧
      e.infer.status = .fixpoint := by
  intro e
  have hflat : ∀ r ∈ e.rules.items, r.IsFlat := by decide
  have hbound : factBound e.rules.items e.facts.roster < e.cap.val := by decide
  exact ⟨hflat, hbound, ((infer_saturates_of_flat e).1 hflat).2 hbound⟩

end ForwardChaining
