import ForwardChaining.Term

/-!
# Rules

A rule says that its consequent holds whenever all its antecedents do. The name of a rule is a note for
the reader: two rules are equal when their antecedents, in order, and their consequents are.
-/

namespace ForwardChaining

/-- If all `antecedents` hold, then so does `consequent`. -/
structure Rule where
  antecedents : List Atom
  consequent : Atom
  name : String := ""

/-- Lists of equal things in the same order are equal, and this too is an equivalence relation. -/
instance instEquivBEqList {α : Type} [BEq α] [EquivBEq α] : EquivBEq (List α) where
  rfl {xs} := by
    induction xs with
    | nil => rfl
    | cons x xs ih => rw [List.cons_beq_cons, BEq.refl x, Bool.true_and]; exact ih
  symm {xs ys} h := by
    induction xs generalizing ys with
    | nil => cases ys with
      | nil => rfl
      | cons y ys => exact absurd h (by simp)
    | cons x xs ih => cases ys with
      | nil => exact absurd h (by simp)
      | cons y ys =>
        rw [List.cons_beq_cons, Bool.and_eq_true] at h ⊢
        exact ⟨BEq.symm h.1, ih h.2⟩
  trans {xs ys zs} hxy hyz := by
    induction xs generalizing ys zs with
    | nil => cases ys with
      | nil => exact hyz
      | cons y ys => exact absurd hxy (by simp)
    | cons x xs ih => cases ys with
      | nil => exact absurd hxy (by simp)
      | cons y ys => cases zs with
        | nil => exact absurd hyz (by simp)
        | cons z zs =>
          rw [List.cons_beq_cons, Bool.and_eq_true] at hxy hyz ⊢
          exact ⟨BEq.trans hxy.1 hyz.1, ih hxy.2 hyz.2⟩

namespace Rule

instance : BEq Rule :=
  ⟨fun r s => r.antecedents == s.antecedents && r.consequent == s.consequent⟩

theorem beq_iff {r s : Rule} :
    (r == s) = true ↔ (r.antecedents == s.antecedents) = true ∧ (r.consequent == s.consequent) = true :=
  Bool.and_eq_true_iff

instance : EquivBEq Rule where
  rfl := beq_iff.2 ⟨BEq.refl _, BEq.refl _⟩
  symm h := let ⟨ha, hc⟩ := beq_iff.1 h; beq_iff.2 ⟨BEq.symm ha, BEq.symm hc⟩
  trans h₁ h₂ :=
    let ⟨ha₁, hc₁⟩ := beq_iff.1 h₁
    let ⟨ha₂, hc₂⟩ := beq_iff.1 h₂
    beq_iff.2 ⟨BEq.trans ha₁ ha₂, BEq.trans hc₁ hc₂⟩

/-- The names of the variables of the antecedents, each as often as it occurs. -/
def antecedentVars (r : Rule) : List String := r.antecedents.flatMap Atom.vars

/-- The names of all variables of the rule, each as often as it occurs. -/
def vars (r : Rule) : List String := r.antecedentVars ++ r.consequent.vars

/-- The variables of the consequent that no antecedent mentions, each once. A rule that has one cannot
derive a fact: whatever the antecedents match, the variable remains. -/
def unboundVars (r : Rule) : List String :=
  (r.consequent.vars.filter fun v => v ∉ r.antecedentVars).eraseDups

end Rule

end ForwardChaining
