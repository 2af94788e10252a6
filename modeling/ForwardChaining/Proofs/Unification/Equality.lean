import Mathlib.Tactic.NormNum
import ForwardChaining.Proofs.DeadRules
import ForwardChaining.Proofs.Substitution.Equality
import ForwardChaining.Proofs.Value

/-!
# Unification up to equality

Equal constants may be held in different ways, and of equal facts a store keeps the one that came first.  So
unification is given now one of two equal terms and now the other, and it binds variables to the one that it was
given.  It must not matter which: equal terms, under equal substitutions, are unified or not alike, for the same
reason, and the bindings that are left are equal again, those of a failure too (`unify_agrees`).

The induction compares two runs step by step.  Equal terms walk to equal terms, which are unequal to the others in
both runs or in neither, and which have the same shape.  So both runs take the same branch; they change the sides
together, since only a variable is equal to a variable.  A step leaves equal bindings for the next one, and
`unifyInTurn_agrees` goes on from there to attempts in turn.

The depth that a run is allowed is computed from its terms and bindings.  It may differ between the two, and it does
if a substitution holds bindings that are hidden; on acyclic bindings the answer does not depend on it
(`unifyWithin_eq_unify`).
-/

namespace ForwardChaining

open Substitution

variable {S S' : Substitution} {x x' y y' t t' : Term} {v : String} {depth : Nat}

/-! ### Outcomes up to equality -/

inductive Verdict.Agrees : Verdict → Verdict → Prop
  | unified : Agrees .unified .unified
  | clash : Agrees .clash .clash
  | occurs (v : String) {t t' : Term} : t ≈ t' → Agrees (.occurs v t) (.occurs v t')
  | unfinished : Agrees .unfinished .unfinished

namespace Unification

/-- The attempts ended for the same reason and left equal bindings. -/
structure Agrees (u u' : Unification) : Prop where
  verdict : u.verdict.Agrees u'.verdict
  bindings : u.bindings ≈ u'.bindings

variable {u u' : Unification}

theorem Agrees.isUnified_eq (h : u.Agrees u') : u.isUnified = u'.isUnified := by
  obtain ⟨verdict, bindings⟩ := u
  obtain ⟨verdict', bindings'⟩ := u'
  obtain ⟨hverdict, -⟩ := h
  cases hverdict <;> rfl

theorem Agrees.unfinished (h : u.Agrees u') (h' : u'.verdict = .unfinished) : u.verdict = .unfinished := by
  obtain ⟨verdict, bindings⟩ := u
  obtain ⟨verdict', bindings'⟩ := u'
  obtain ⟨hverdict, -⟩ := h
  subst h'
  cases hverdict
  rfl

end Unification

/-! ### Two runs, step by step -/

theorem bindUnlessOccurs_agrees (hS : S.Acyclic) (h : S ≈ S') (ht : t ≈ t') :
    (S.bindUnlessOccurs v t).Agrees (S'.bindUnlessOccurs v t') := by
  rw [bindUnlessOccurs, bindUnlessOccurs, ← hS.occurs_congr h ht]
  split
  · exact ⟨.occurs v ht, h⟩
  · exact ⟨.unified, insert_congr h ht v⟩

theorem unifyInStep_agrees
    (hstep : ∀ {x x' y y' : Term} {S S' : Substitution}, S.Acyclic → S ≈ S' → x ≈ x' → y ≈ y' →
      (unifyWithin depth x y S).Agrees (unifyWithin depth x' y' S'))
    {xs xs' ys ys' : List Term} (hS : S.Acyclic) (h : S ≈ S') (hxs : List.Forall₂ (· ≈ ·) xs xs')
    (hys : List.Forall₂ (· ≈ ·) ys ys') :
    (unifyInStep (unifyWithin depth) xs ys S).Agrees (unifyInStep (unifyWithin depth) xs' ys' S') := by
  induction hxs generalizing ys ys' S S' with
  | nil =>
    cases hys with
    | nil => exact ⟨.unified, h⟩
    | cons _ _ => exact ⟨.clash, h⟩
  | cons hx _ ih =>
    cases hys with
    | nil => exact ⟨.clash, h⟩
    | cons hy hys =>
      have hfirst := hstep hS h hx hy
      rw [unifyInStep_cons, unifyInStep_cons, ← hfirst.isUnified_eq]
      split
      · exact ih (unifyWithin_acyclic hS) hfirst.bindings hys
      · exact hfirst

theorem unifyWithin_agrees (hS : S.Acyclic) (h : S ≈ S') (hx : x ≈ x') (hy : y ≈ y') :
    (unifyWithin depth x y S).Agrees (unifyWithin depth x' y' S') := by
  induction depth generalizing x x' y y' S S' with
  | zero => exact ⟨.unfinished, h⟩
  | succ depth ih =>
    have hwx := hS.walk_congr h hx
    have hwy := hS.walk_congr h hy
    have hsame : (S.walk x == S.walk y) = (S'.walk x' == S'.walk y') :=
      (BEq.congr_left hwx).trans (BEq.congr_right hwy)
    rw [unifyWithin, unifyWithin, ← hsame, ← Term.isVar_eq_of_equiv hy]
    clear hsame
    generalize S.walk x = s at hwx ⊢
    generalize S.walk y = t at hwy ⊢
    generalize S'.walk x' = s' at hwx ⊢
    generalize S'.walk y' = t' at hwy ⊢
    split
    · exact ⟨.unified, h⟩
    -- The walked terms have the same shapes in both runs, so one case analysis serves both.
    cases hwx using Term.equiv_rec with
    | var v => exact bindUnlessOccurs_agrees hS h hwy
    | const c d hcd =>
      cases hwy using Term.equiv_rec with
      | var w => exact bindUnlessOccurs_agrees hS h hcd
      | const _ _ _ => exact ⟨.clash, h⟩
      | app _ _ _ _ _ => exact ⟨.clash, h⟩
    | app f xs xs' hxs _ =>
      cases hwy using Term.equiv_rec with
      | var w => exact bindUnlessOccurs_agrees hS h hxs
      | const _ _ _ => exact ⟨.clash, h⟩
      | app g ys ys' hys _ =>
        have hxs := (Term.app_equiv_app.mp hxs).2
        have hys := (Term.app_equiv_app.mp hys).2
        dsimp only
        rw [← hxs.length_eq, ← hys.length_eq]
        split
        · split
          · exact unifyInStep_agrees ih hS h hys hxs
          · exact unifyInStep_agrees ih hS h hxs hys
        · exact ⟨.clash, h⟩

/-! ### Attempts with their own depths -/

/-- **The depth that is allowed does not matter** as long as it is enough. -/
theorem unifyWithin_eq_unify (hS : S.Acyclic) (h : (unifyWithin depth x y S).verdict ≠ .unfinished) :
    unifyWithin depth x y S = unify x y S :=
  Option.some.inj ((Unbounded.unify_eq_unifyWithin hS h).symm.trans (Unbounded.unify_eq hS x y))

/-- **Equal terms under equal substitutions unify alike.** -/
theorem unify_agrees (hS : S.Acyclic) (h : S ≈ S') (hx : x ≈ x') (hy : y ≈ y') :
    (unify x y S).Agrees (unify x' y' S') := by
  -- The second run is allowed the depth of the first one, which was enough there.
  have hagrees : (unify x y S).Agrees (unifyWithin (depthBound x y S) x' y' S') :=
    unifyWithin_agrees hS h hx hy
  have hends : (unifyWithin (depthBound x y S) x' y' S').verdict ≠ .unfinished :=
    fun hun => unify_verdict_ne_unfinished hS (hagrees.unfinished hun)
  rwa [unifyWithin_eq_unify (acyclic_of_equiv h hS) hends] at hagrees

/-- **So do attempts in turn**, each with what those before it have left. -/
theorem unifyInTurn_agrees {pairs pairs' : List (Term × Term)} (hS : S.Acyclic) (h : S ≈ S')
    (hpairs : List.Forall₂ (fun p p' => p.1 ≈ p'.1 ∧ p.2 ≈ p'.2) pairs pairs') :
    List.Forall₂ Unification.Agrees (unifyInTurn pairs S) (unifyInTurn pairs' S') := by
  induction hpairs generalizing S S' with
  | nil => exact .nil
  | cons hp _ ih =>
    have hfirst := unify_agrees hS h hp.1 hp.2
    exact .cons hfirst (ih (unify_acyclic hS) hfirst.bindings)

/-! ### Equality is a congruence -/

/-- **Equality of terms is a congruence for unification.**  Equality of terms and equality of rules are equivalence
relations; numbers of any kind are equal as constants exactly if they are the same rational number.  For equal terms
under equal substitutions that are acyclic, unification ends with the same answer and leaves equal bindings, also when
it fails.  Such substitutions make equal terms of equal terms, and the same variables occur in these.  The name of a
rule does not count, and equal rules have the same variables and the same unbound ones. -/
theorem unify_respectsEquality :
    (Equivalence fun x y : Term => (x == y) = true) ∧ (Equivalence fun r s : Rule => (r == s) = true) ∧
    (∀ (a b : Value) (q r : ℚ), a.rational? = some q → b.rational? = some r →
      (Term.const a ≈ .const b ↔ q = r)) ∧
    (∀ (x x' y y' : Term) (S S' : Substitution), S.Acyclic → S ≈ S' → x ≈ x' → y ≈ y' →
      (Unbounded.unify x y S = some (unify x y S) ∧ Unbounded.unify x' y' S' = some (unify x' y' S')) ∧
      (unify x y S).isUnified = (unify x' y' S').isUnified ∧
      (unify x y S).bindings ≈ (unify x' y' S').bindings ∧
      S.apply x ≈ S'.apply x' ∧ (∀ v, S.occurs v x = S'.occurs v x') ∧ x.vars = x'.vars) ∧
    (∀ (r s : Rule) (name name' : String), ({ r with name } == { s with name := name' }) = (r == s)) ∧
    ∀ r s : Rule, (r == s) = true → r.vars = s.vars ∧ r.unboundVars = s.unboundVars := by
  refine ⟨⟨BEq.refl, BEq.symm, BEq.trans⟩, ⟨BEq.refl, BEq.symm, BEq.trans⟩, ?_, ?_, fun _ _ _ _ => rfl, ?_⟩
  · exact fun a b q r ha hb => Value.beq_iff_rational_eq ha hb
  · intro x x' y y' S S' hS h hx hy
    have hends := Unbounded.unify_eq hS x y
    have hends' := Unbounded.unify_eq (acyclic_of_equiv h hS) x' y'
    have hagrees := unify_agrees hS h hx hy
    exact ⟨⟨hends, hends'⟩, hagrees.isUnified_eq, hagrees.bindings, hS.apply_congr h hx, hS.occurs_congr h hx,
      Term.vars_eq_of_equiv hx⟩
  · exact fun r s h => ⟨Rule.vars_eq_of_beq h, Rule.unboundVars_eq_of_beq h⟩

/-- Two runs that are refused at their third pair of arguments.  Before that, one binds `Y` to the integer one and `V`
to an integer of 54 bits, the other binds them to true and to the same number as a real one, which the next integer
does not equal. -/
theorem unify_respectsEquality_refused :
    let large : Value := .int 9007199254740992
    let large' : Value := .real (.finite false 4503599627370496 1 (by decide))
    let S : Substitution := empty.insert "Z" (.app "f" [.var "X", .const (.int 0)])
    let S' : Substitution := empty.insert "Z" (.app "f" [.var "X", .const (.bool false)])
    let x : Term := .app "p" [.var "Y", .const large, .var "X"]
    let x' : Term := .app "p" [.var "Y", .const large', .var "X"]
    let y : Term := .app "p" [.const (.int 1), .var "V", .var "Z"]
    let y' : Term := .app "p" [.const (.bool true), .var "V", .var "Z"]
    let r : Rule := ⟨[⟨"q", [.const (.int 1), .var "X"]⟩], ⟨"q", [.var "X", .var "Y"]⟩, "first"⟩
    let s : Rule := ⟨[⟨"q", [.const (.bool true), .var "X"]⟩], ⟨"q", [.var "X", .var "Y"]⟩, "second"⟩
    large.rational? = some 9007199254740992 ∧ large'.rational? = some 9007199254740992 ∧
      (Term.const large ≈ .const large' ∧ ¬ Term.const (.int 9007199254740993) ≈ .const large') ∧
      S.Acyclic ∧ S ≈ S' ∧ x ≈ x' ∧ y ≈ y' ∧
      ((unify x y S).isUnified = false ∧ (unify x' y' S').isUnified = false ∧
        (unify x y S).bindings ≈ (unify x' y' S').bindings) ∧
      ((unify x y S).bindings.find? "V" matches some (.const (.int _))) ∧
      ((unify x' y' S').bindings.find? "V" matches some (.const (.real _))) ∧
      (r == s) = true ∧ r.vars = s.vars ∧ r.unboundVars = s.unboundVars := by
  intro large large' S S' x x' y y' r s
  obtain ⟨-, -, hnumbers, hterms, -, hrules⟩ := unify_respectsEquality
  have hlarge : large.rational? = some 9007199254740992 := rfl
  have hlarge' : large'.rational? = some 9007199254740992 := by
    norm_num [large', Value.rational?]
  have hequal : Term.const large ≈ .const large' := (hnumbers _ _ _ _ hlarge hlarge').mpr rfl
  have hunequal : ¬ Term.const (.int 9007199254740993) ≈ .const large' := by
    rw [hnumbers (.int 9007199254740993) large' _ _ rfl hlarge']
    norm_num
  have hS : S.Acyclic := acyclic_empty.insert (acyclic_empty.occurs_eq_false_iff.mp (by decide))
  have hSS' : S ≈ S' := insert_congr (Setoid.refl empty) (Term.equiv_iff_beq.mpr (by decide)) "Z"
  have hx : x ≈ x' := Term.app_equiv_app.mpr ⟨rfl, .cons (Setoid.refl _) (.cons hequal (.cons (Setoid.refl _) .nil))⟩
  have hy : y ≈ y' := Term.equiv_iff_beq.mpr (by decide)
  obtain ⟨-, hanswer, hbindings, -⟩ := hterms x x' y y' S S' hS hSS' hx hy
  have hfails : (unify x y S).isUnified = false := by decide
  have hrs : (r == s) = true := by decide
  exact ⟨hlarge, hlarge', ⟨hequal, hunequal⟩, hS, hSS', hx, hy, ⟨hfails, hanswer.symm.trans hfails, hbindings⟩,
    by decide, by decide, hrs, hrules r s hrs⟩

end ForwardChaining
