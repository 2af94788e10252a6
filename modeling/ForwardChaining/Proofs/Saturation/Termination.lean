import ForwardChaining.Engine
import ForwardChaining.Proofs.Matching
import ForwardChaining.Proofs.Unbounded.Saturation
import ForwardChaining.Proofs.Unification.Termination

/-!
# Saturation terminates

The search starts without bindings and only grows them, so that all its bindings are acyclic and every
unification and every application that it asks for comes to an end (`Unbounded.attempts_eq`).  So does each
pass, and the loop makes at most as many passes as the cap allows (`Unbounded.saturate_eq`).
-/

namespace ForwardChaining.Unbounded

open Substitution

variable {S : Substitution} {facts as : List Atom}

theorem mapM_flatten_eq_some_flatMap {α β : Type} {g : α → Option (List β)} {h : α → List β}
    {l : List α} (hgh : ∀ a ∈ l, g a = some (h a)) :
    (do let parts ← l.mapM g; return parts.flatten) = some (l.flatMap h) := by
  rw [mapM_eq_some_map hgh, List.flatMap_def]
  rfl

theorem attempts_eq (hS : S.Acyclic) :
    attempts facts as S = some (ForwardChaining.attempts facts as S) := by
  induction as generalizing S with
  | nil => rfl
  | cons a as ih =>
    rw [attempts, ForwardChaining.attempts]
    refine mapM_flatten_eq_some_flatMap fun f _ => ?_
    have hT := unify_acyclic (x := a.toTerm) (y := f.toTerm) hS
    rw [unify_eq hS]
    generalize ForwardChaining.unify a.toTerm f.toTerm S = u at hT
    obtain ⟨verdict, T⟩ := u
    cases verdict with
    | unified => exact ih hT
    | occurs v t => rfl
    | clash => rfl
    | unfinished => rfl

theorem findingOf_eq (r : Rule) {e : Except Rejection Substitution} (he : ∀ S, e = .ok S → S.Acyclic) :
    findingOf r e = some (r.findingOf e) := by
  cases e with
  | error _ => rfl
  | ok S =>
    rw [findingOf, mapM_eq_some_map fun t _ => apply_eq (he S rfl) t]
    rfl

theorem findings_eq (r : Rule) :
    findings facts r = some ((r.findings facts).map fun f => (r, f)) := by
  have hends : ∀ e ∈ ForwardChaining.attempts facts r.antecedents .empty,
      findingOf r e = some (r.findingOf e) := by
    intro e he
    refine findingOf_eq r fun S hS => ?_
    obtain ⟨fs, _, hmatch⟩ := ok_mem_attempts_iff.mp (hS ▸ he)
    exact hmatch.acyclic acyclic_empty
  rw [findings, attempts_eq acyclic_empty]
  show ((ForwardChaining.attempts facts r.antecedents .empty).mapM (findingOf r) >>= _) = _
  rw [mapM_eq_some_map hends]
  rfl

theorem pass_eq (rules : List Rule) (number : Nat) (known : Roster Atom) :
    pass rules number known = some (Pass.run rules number known) := by
  rw [pass, mapM_eq_some_map fun r _ => findings_eq r]
  rfl

/-- **The loop makes no more passes than the cap allows**, and the same ones. -/
theorem saturate_eq {rules : List Rule} {cap left number : Nat} {known : Roster Atom}
    (h : cap + 1 = number + left) :
    saturate rules cap number known = some (ForwardChaining.saturate rules left number known) := by
  induction left generalizing number known with
  | zero =>
    rw [saturate, if_pos (by omega)]
    rfl
  | succ left ih =>
    rw [saturate, if_neg (by omega), pass_eq, ForwardChaining.saturate]
    show (if _ then _ else _) = _
    by_cases hnew : (Pass.run rules number known).newFacts.isEmpty = true
    · rw [if_pos hnew]
      rw [if_pos hnew]
      rfl
    · rw [if_neg hnew]
      beta_reduce
      rw [ih (by omega)]
      rw [if_neg hnew]
      rfl

/-- **Every inference of an engine comes to an end.** -/
theorem infer_eq (e : Engine) : infer e.facts e.rules e.cap.val = some e.infer := by
  rw [infer, saturate_eq (Nat.add_comm _ _)]
  rfl

end ForwardChaining.Unbounded
