import ForwardChaining.Proofs.Unbounded.Unification
import ForwardChaining.Proofs.Unification.Growth

/-!
# Termination

On acyclic bindings the plain recursions come to an end, and with the answers of the bounded functions:

* `Unbounded.resolve_eq`, `Unbounded.apply_eq`, `Unbounded.occurs_eq`: by induction along the bindings.
* `Unbounded.unify_eq`: a recursion of `unify` that follows bindings comes to the walked terms
  (`Unbounded.unify_eq_unify_walk`); from there the depth decreases, which `unify_verdict_ne_unfinished` bounds,
  although the bindings grow on the way.

Since unification leaves acyclic bindings acyclic, on failure too, this goes on along every sequence of
calls on one growing substitution.
-/

namespace ForwardChaining

open Substitution

variable {S : Substitution}

namespace Unbounded

/-! ### Following bindings -/

theorem resolve_eq (hS : S.Acyclic) (t : Term) : resolve S t = some (S.walk t) := by
  induction t using hS.induction with
  | unbound v hv => rw [resolve, hv, walk_of_unbound hv]
  | bound v u hv ih => rw [resolve, hv, hS.walk_of_bound hv]; exact ih
  | const c => rw [resolve.eq_def, walk_const]
  | app f args _ => rw [resolve.eq_def, walk_app]

theorem mapM_eq_some_map {α β : Type} {g : α → Option β} {h : α → β} {l : List α}
    (hgh : ∀ a ∈ l, g a = some (h a)) : l.mapM g = some (l.map h) := by
  induction l with
  | nil => rfl
  | cons a l ih =>
    rw [List.mapM_cons, hgh a (by simp), ih fun b hb => hgh b (List.mem_cons_of_mem _ hb)]
    rfl

theorem apply_eq (hS : S.Acyclic) (t : Term) : apply S t = some (S.apply t) := by
  induction t using hS.induction with
  | unbound v hv => rw [apply, hv, apply_of_unbound hv]
  | bound v u hv ih => rw [apply, hv, hS.apply_of_bound hv]; exact ih
  | const c => rw [apply, apply_const]
  | app f args ih =>
    rw [apply]
    split
    · next hempty => rw [Substitution.apply, List.isEmpty_iff.mp hempty]; rfl
    · rw [mapM_eq_some_map ih, apply_app]
      rfl

theorem anyM_eq_some_any {α : Type} {g : α → Option Bool} {h : α → Bool} {l : List α}
    (hgh : ∀ a ∈ l, g a = some (h a)) : l.anyM g = some (l.any h) := by
  induction l with
  | nil => rfl
  | cons a l ih =>
    rw [List.anyM_cons, hgh a (by simp), List.any_cons]
    cases h a with
    | true => rfl
    | false => exact ih fun b hb => hgh b (List.mem_cons_of_mem _ hb)

theorem occurs_eq (hS : S.Acyclic) (v : String) (t : Term) :
    occurs S v t = some (S.occurs v t) := by
  induction t using hS.induction with
  | unbound w hw =>
    rw [occurs, hw, hS.occurs_eq_any]
    by_cases hvw : v = w
    · simp [hvw]
    · simp [hvw, hw, Ne.symm hvw]
  | bound w u hw ih =>
    rw [occurs, hw, hS.occurs_of_bound hw]
    by_cases hvw : v = w
    · simp [hvw]
    · simp [hvw, Ne.symm hvw, ih]
  | const c =>
    rw [occurs, hS.occurs_eq_any]
    rfl
  | app f args ih => rw [occurs, anyM_eq_some_any ih, hS.occurs_app]

theorem bindUnlessOccurs_eq (hS : S.Acyclic) (v : String) (t : Term) :
    bindUnlessOccurs v t S = some (S.bindUnlessOccurs v t) := by
  rw [bindUnlessOccurs, occurs_eq hS, Substitution.bindUnlessOccurs]
  cases S.occurs v t <;> rfl

/-! ### Coming to the walked terms -/

theorem walk_of_not_var {t : Term} (h : t.isVar = false) : S.walk t = t := by
  cases t with
  | var v => exact absurd h (by simp)
  | const c => exact walk_const c
  | app f args => exact walk_app f args

theorem walk_equiv {x y : Term} (h : x ≈ y) : S.walk x ≈ S.walk y := by
  cases hx : x.isVar with
  | true =>
    cases x with
    | var v => rw [Term.eq_var_of_equiv h]
    | const c => exact absurd hx (by simp)
    | app f xs => exact absurd hx (by simp)
  | false =>
    cases y with
    | var w => rw [Term.eq_var_of_equiv (Setoid.symm h)]
    | const d => rwa [walk_of_not_var hx, walk_const]
    | app g ys => rwa [walk_of_not_var hx, walk_app]

theorem not_equiv_var {x : Term} {v : String} (hx : x.isVar = false) : ¬ x ≈ .var v := by
  intro h
  rw [Term.eq_var_of_equiv (Setoid.symm h)] at hx
  exact absurd hx (by simp)

theorem unify_of_equiv {x y : Term} (h : x ≈ y) : unify x y S = some ⟨.unified, S⟩ := by
  rw [unify.eq_def, if_pos (Term.equiv_iff_beq.mp h)]

theorem unify_var_left {v : String} {y : Term} (h : ¬ .var v ≈ y) :
    unify (.var v) y S = unifyVar v y S := by
  rw [unify.eq_def, if_neg (mt Term.equiv_iff_beq.mpr h)]

theorem unify_var_right {v : String} {x : Term} (hx : x.isVar = false) :
    unify x (.var v) S = unifyVar v x S := by
  rw [unify.eq_def, if_neg (mt Term.equiv_iff_beq.mpr (not_equiv_var hx))]
  cases x with
  | var w => exact absurd hx (by simp)
  | const c => rfl
  | app f args => rfl

theorem unifyVar_of_bound {v : String} {u t : Term} (hv : S.find? v = some u) :
    unifyVar v t S = unify u t S := by
  rw [unifyVar.eq_def, hv]

theorem unifyVar_var_of_bound {v w : String} {u : Term} (hv : S.find? v = none)
    (hw : S.find? w = some u) : unifyVar v (.var w) S = unify (.var v) u S := by
  rw [unifyVar.eq_def, hv]
  simp only [hw]

theorem unifyVar_of_walked (hS : S.Acyclic) {v : String} {t : Term} (hv : S.find? v = none)
    (ht : ∀ w, t = .var w → S.find? w = none) : unifyVar v t S = some (S.bindUnlessOccurs v t) := by
  rw [← bindUnlessOccurs_eq hS, unifyVar.eq_def, hv]
  cases t with
  | var w => simp only [ht w rfl]
  | const c => rfl
  | app f args => rfl

/-- With no variable on the right, the bindings on the left are followed. -/
theorem unify_eq_unify_walk_left (hS : S.Acyclic) (x : Term) {y : Term} (hy : y.isVar = false) :
    unify x y S = unify (S.walk x) y S := by
  induction x using hS.induction with
  | unbound v hv => rw [walk_of_unbound hv]
  | bound v u hv ih =>
    have h : ¬ .var v ≈ y := fun h => not_equiv_var hy (Setoid.symm h)
    rw [hS.walk_of_bound hv, ← ih, unify_var_left h, unifyVar_of_bound hv]
  | const c => rw [walk_const]
  | app f args _ => rw [walk_app]

/-- With an unbound variable on the left, the bindings on the right are followed. -/
theorem unify_eq_unify_walk_right (hS : S.Acyclic) {v : String} (hv : S.find? v = none) (y : Term) :
    unify (.var v) y S = unify (.var v) (S.walk y) S := by
  induction y using hS.induction with
  | unbound w hw => rw [walk_of_unbound hw]
  | bound w u hw ih =>
    have h : ¬ Term.var v ≈ .var w := by
      intro h
      rw [Term.var.inj (Term.eq_var_of_equiv h), hv] at hw
      exact absurd hw (by simp)
    rw [hS.walk_of_bound hw, ← ih, unify_var_left h, unifyVar_var_of_bound hv hw]
  | const c => rw [walk_const]
  | app f args _ => rw [walk_app]

/-- The order in which two walked terms are taken up: the sides change places if neither is a variable
and the right one came out of a binding. -/
def oriented (swap : Bool) (x y : Term) : Term × Term :=
  if swap && !x.isVar && !y.isVar then (y, x) else (x, y)

theorem oriented_of_isVar {swap : Bool} {x y : Term} (h : x.isVar = true ∨ y.isVar = true) :
    oriented swap x y = (x, y) := by
  rw [oriented, if_neg]
  rcases h with h | h <;> simp [h]

theorem unify_eq_oriented (hS : S.Acyclic) {x : Term} (hx : x.isVar = false) (y : Term) :
    unify x y S = unify (oriented y.isVar (S.walk x) (S.walk y)).1
      (oriented y.isVar (S.walk x) (S.walk y)).2 S := by
  rw [walk_of_not_var hx]
  cases y with
  | const d => simp [oriented]
  | app g ys => simp [oriented]
  | var w =>
    cases hw : S.find? w with
    | none => simp [walk_of_unbound hw, oriented]
    | some u =>
      rw [unify_var_right hx, unifyVar_of_bound hw, unify_eq_unify_walk_left hS u hx,
        hS.walk_of_bound hw]
      cases hu : S.walk u with
      | var v =>
        have h : ¬ .var v ≈ x := fun h => not_equiv_var hx (Setoid.symm h)
        rw [oriented_of_isVar (.inr rfl), unify_var_left h, unify_var_right hx]
      | const d => simp [oriented, hx]
      | app g ys => simp [oriented, hx]

/-- **The recursion comes to the walked terms.** -/
theorem unify_eq_unify_walk (hS : S.Acyclic) (x y : Term) :
    unify x y S = unify (oriented y.isVar (S.walk x) (S.walk y)).1
      (oriented y.isVar (S.walk x) (S.walk y)).2 S := by
  induction x using hS.induction with
  | unbound v hv =>
    rw [walk_of_unbound hv, unify_eq_unify_walk_right hS hv, oriented_of_isVar (.inl rfl)]
  | bound v u hv ih =>
    by_cases h : .var v ≈ y
    · have hw : S.walk (.var v) ≈ S.walk y := walk_equiv h
      rw [unify_of_equiv h, oriented]
      split
      · exact (unify_of_equiv (Setoid.symm hw)).symm
      · exact (unify_of_equiv hw).symm
    · rw [hS.walk_of_bound hv, unify_var_left h, unifyVar_of_bound hv]
      exact ih
  | const c => exact unify_eq_oriented hS rfl y
  | app f args _ => exact unify_eq_oriented hS rfl y

/-! ### The recursion ends -/

theorem unify_app_app {f : String} {xs ys : List Term} (h : ¬ .app f xs ≈ Term.app f ys)
    (hlen : xs.length = ys.length) :
    unify (.app f xs) (.app f ys) S = unifyPairs (xs.zip ys) S := by
  rw [unify.eq_def, if_neg (mt Term.equiv_iff_beq.mpr h)]
  exact if_pos ⟨rfl, hlen⟩

theorem unify_clash {x y : Term} (hx : x.isVar = false) (hy : y.isVar = false) (h : ¬ x ≈ y)
    (hd : ∀ f xs g ys, x = .app f xs → y = .app g ys → ¬ (f = g ∧ xs.length = ys.length)) :
    unify x y S = some ⟨.clash, S⟩ := by
  rw [unify.eq_def, if_neg (mt Term.equiv_iff_beq.mpr h)]
  cases x with
  | var v => exact absurd hx (by simp)
  | const c =>
    cases y with
    | var w => exact absurd hy (by simp)
    | const d => rfl
    | app g ys => rfl
  | app f xs =>
    cases y with
    | var w => exact absurd hy (by simp)
    | const d => rfl
    | app g ys => exact if_neg (hd f xs g ys rfl rfl)

theorem unify_oriented_clash {x y : Term} (hx : x.isVar = false) (hy : y.isVar = false) (h : ¬ x ≈ y)
    (hd : ∀ f xs g ys, x = .app f xs → y = .app g ys → ¬ (f = g ∧ xs.length = ys.length))
    (swap : Bool) : unify (oriented swap x y).1 (oriented swap x y).2 S = some ⟨.clash, S⟩ := by
  rw [oriented]
  split
  · refine unify_clash hy hx (fun h' => h (Setoid.symm h')) fun g ys f xs hy hx hgf => ?_
    exact hd f xs g ys hx hy ⟨hgf.1.symm, hgf.2.symm⟩
  · exact unify_clash hx hy h hd

theorem unifyPairs_eq {depth : Nat}
    (hstep : ∀ x y S, Acyclic S → (unifyWithin depth x y S).verdict ≠ .unfinished →
      unify x y S = some (unifyWithin depth x y S))
    {xs ys : List Term} (hlen : xs.length = ys.length) (hS : S.Acyclic)
    (h : (unifyInStep (unifyWithin depth) xs ys S).verdict ≠ .unfinished) :
    unifyPairs (xs.zip ys) S = some (unifyInStep (unifyWithin depth) xs ys S) := by
  induction xs generalizing ys S with
  | nil =>
    obtain rfl := List.length_eq_zero_iff.mp hlen.symm
    rw [List.zip_nil_left, unifyPairs.eq_def]
    rfl
  | cons x xs ih =>
    cases ys with
    | nil => exact absurd hlen (by simp)
    | cons y ys =>
      rw [unifyInStep_cons] at h ⊢
      rw [List.zip_cons_cons, unifyPairs.eq_def]
      cases hok : (unifyWithin depth x y S).isUnified with
      | true =>
        have hne : (unifyWithin depth x y S).verdict ≠ .unfinished := by
          rw [Unification.isUnified_iff.mp hok]
          exact fun h => Verdict.noConfusion h
        rw [hok, if_pos rfl] at h
        simp only [hstep x y S hS hne, Option.bind_eq_bind, Option.bind_some, hok, if_true]
        exact ih (Nat.succ.inj hlen) (unifyWithin_acyclic hS) h
      | false =>
        rw [hok, if_neg Bool.false_ne_true] at h
        simp only [hstep x y S hS h, Option.bind_eq_bind, Option.bind_some, hok,
          Bool.false_eq_true, if_false]
        rfl

/-- **A bounded attempt that is not cut off gives the answer of the recursion.** -/
theorem unify_eq_unifyWithin {depth : Nat} {x y : Term} (hS : S.Acyclic)
    (h : (unifyWithin depth x y S).verdict ≠ .unfinished) :
    unify x y S = some (unifyWithin depth x y S) := by
  induction depth generalizing x y S with
  | zero => exact absurd rfl h
  | succ depth ih =>
    have hx : ∀ v, S.walk x = .var v → S.find? v = none := fun v => hS.find?_of_walk_eq_var
    have hy : ∀ v, S.walk y = .var v → S.find? v = none := fun v => hS.find?_of_walk_eq_var
    rw [unify_eq_unify_walk hS]
    rw [unifyWithin] at h ⊢
    generalize S.walk x = x' at hx h ⊢
    generalize S.walk y = y' at hy h ⊢
    by_cases heq : (x' == y') = true
    · rw [if_pos heq, oriented]
      split
      · exact unify_of_equiv (Setoid.symm (Term.equiv_iff_beq.mpr heq))
      · exact unify_of_equiv heq
    rw [if_neg heq] at h ⊢
    cases x' with
    | var v =>
      rw [oriented_of_isVar (.inl rfl), unify_var_left heq, unifyVar_of_walked hS (hx v rfl) hy]
    | const c =>
      cases y' with
      | var w =>
        rw [oriented_of_isVar (.inr rfl), unify_var_right rfl,
          unifyVar_of_walked hS (hy w rfl) hx]
      | const d => exact unify_oriented_clash rfl rfl heq (by simp) _
      | app g ys => exact unify_oriented_clash rfl rfl heq (by simp) _
    | app f xs =>
      cases y' with
      | var w =>
        rw [oriented_of_isVar (.inr rfl), unify_var_right rfl,
          unifyVar_of_walked hS (hy w rfl) hx]
      | const d => exact unify_oriented_clash rfl rfl heq (by simp) _
      | app g ys =>
        dsimp only at h ⊢
        by_cases hfg : f = g ∧ xs.length = ys.length
        · rw [if_pos hfg] at h ⊢
          obtain ⟨rfl, hlen⟩ := hfg
          cases hswap : y.isVar with
          | true =>
            rw [hswap, if_pos rfl] at h
            have hne : ¬ Term.app f ys ≈ .app f xs := fun h' => heq (Setoid.symm h')
            simp only [oriented, Term.isVar_app, Bool.not_false, Bool.and_self, if_true]
            rw [unify_app_app hne hlen.symm]
            exact unifyPairs_eq (fun x y S hS h => ih hS h) hlen.symm hS h
          | false =>
            rw [hswap, if_neg Bool.false_ne_true] at h
            simp only [oriented, Bool.false_and, Bool.false_eq_true, if_false]
            rw [unify_app_app heq hlen]
            exact unifyPairs_eq (fun x y S hS h => ih hS h) hlen hS h
        · rw [if_neg hfg]
          refine unify_oriented_clash rfl rfl heq ?_ _
          intro f' xs' g' ys' hx' hy'
          rw [Term.app.injEq] at hx' hy'
          obtain ⟨rfl, rfl⟩ := hx'
          obtain ⟨rfl, rfl⟩ := hy'
          exact hfg

/-- **On acyclic bindings unification ends**, with the answer of the bounded function. -/
theorem unify_eq (hS : S.Acyclic) (x y : Term) : unify x y S = some (ForwardChaining.unify x y S) :=
  unify_eq_unifyWithin hS (unify_verdict_ne_unfinished hS)

theorem bindUnlessOccurs_acyclic (hS : S.Acyclic) (v : String) (t : Term) :
    (S.bindUnlessOccurs v t).bindings.Acyclic := by
  rw [Substitution.bindUnlessOccurs]
  cases ho : S.occurs v t with
  | true => exact hS
  | false => exact hS.insert (hS.occurs_eq_false_iff.mp ho)

theorem exists_unifyVar_eq_some (hS : S.Acyclic) (v : String) (t : Term) :
    ∃ u, unifyVar v t S = some u ∧ u.bindings.Acyclic := by
  cases hv : S.find? v with
  | some u =>
    rw [unifyVar_of_bound hv]
    exact ⟨_, unify_eq hS u t, unify_acyclic hS⟩
  | none =>
    by_cases ht : ∀ w, t = .var w → S.find? w = none
    · rw [unifyVar_of_walked hS hv ht]
      exact ⟨_, rfl, bindUnlessOccurs_acyclic hS v t⟩
    · push Not at ht
      obtain ⟨w, rfl, hw⟩ := ht
      obtain ⟨u, hu⟩ := Option.ne_none_iff_exists'.mp hw
      rw [unifyVar_var_of_bound hv hu]
      exact ⟨_, unify_eq hS (.var v) u, unify_acyclic hS⟩

/-- Every recursion that follows the bindings `S` comes to an end. -/
structure EndsOn (S : Substitution) : Prop where
  resolve : ∀ t, ∃ u, resolve S t = some u
  apply : ∀ t, ∃ u, apply S t = some u
  occurs : ∀ v t, ∃ found, occurs S v t = some found
  unify : ∀ x y, ∃ u, unify x y S = some u
  unifyVar : ∀ v t, ∃ u, unifyVar v t S = some u

theorem endsOn_of_acyclic (hS : S.Acyclic) : EndsOn S where
  resolve t := ⟨_, resolve_eq hS t⟩
  apply t := ⟨_, apply_eq hS t⟩
  occurs v t := ⟨_, occurs_eq hS v t⟩
  unify x y := ⟨_, unify_eq hS x y⟩
  unifyVar v t := (exists_unifyVar_eq_some hS v t).imp fun _ h => h.1

theorem unifyInTurn_eq (hS : S.Acyclic) (pairs : List (Term × Term)) :
    unifyInTurn pairs S = some (ForwardChaining.unifyInTurn pairs S) := by
  induction pairs generalizing S with
  | nil => rfl
  | cons pair pairs ih =>
    obtain ⟨x, y⟩ := pair
    rw [unifyInTurn, ForwardChaining.unifyInTurn, unify_eq hS]
    simp only [Option.bind_eq_bind, Option.bind_some]
    rw [ih (unify_acyclic hS)]
    rfl

end Unbounded

/-- A step keeps the bindings acyclic whatever its verdict, and so does every run of steps. -/
theorem unifyInTurn_acyclic (hS : S.Acyclic) (pairs : List (Term × Term)) :
    ∀ u ∈ unifyInTurn pairs S, u.bindings.Acyclic := by
  induction pairs generalizing S with
  | nil => exact fun u hu => absurd hu List.not_mem_nil
  | cons pair pairs ih =>
    obtain ⟨x, y⟩ := pair
    intro u hu
    rcases List.mem_cons.mp hu with rfl | hu
    · exact unify_acyclic hS
    · exact ih (unify_acyclic hS) u hu

/-- **Unification terminates on acyclic bindings and leaves acyclic bindings, whether it succeeds or
fails.**  So along every sequence of attempts on one growing substitution each recursion, those of later
attempts included, comes to an end. -/
theorem unify_terminates (S : Substitution) (hS : S.Acyclic) :
    (∀ x y, Unbounded.unify x y S = some (unify x y S) ∧ (unify x y S).verdict ≠ .unfinished ∧
      (unify x y S).bindings.Acyclic) ∧
    (∀ v t, ∃ u, Unbounded.unifyVar v t S = some u ∧ u.bindings.Acyclic) ∧
    ∀ pairs, Unbounded.unifyInTurn pairs S = some (unifyInTurn pairs S) ∧
      ∀ T ∈ S :: (unifyInTurn pairs S).map Unification.bindings, T.Acyclic ∧ Unbounded.EndsOn T := by
  refine ⟨fun x y => ?_, Unbounded.exists_unifyVar_eq_some hS, fun pairs => ?_⟩
  · exact ⟨Unbounded.unify_eq hS x y, unify_verdict_ne_unfinished hS, unify_acyclic hS⟩
  · refine ⟨Unbounded.unifyInTurn_eq hS pairs, fun T hT => ?_⟩
    have hac : T.Acyclic := by
      rcases List.mem_cons.mp hT with rfl | hT
      · exact hS
      · obtain ⟨u, hu, rfl⟩ := List.mem_map.mp hT
        exact unifyInTurn_acyclic hS pairs u hu
    exact ⟨hac, Unbounded.endsOn_of_acyclic hac⟩

/-- The second attempt fails on its second pair of arguments and keeps the binding made for its first. -/
theorem unify_terminates_after_failure :
    (Substitution.empty.insert "Z" (.app "f" [.var "X"])).Acyclic ∧
    ∀ T ∈ (unifyInTurn
        [(.app "p" [.var "X", .var "Y"], .app "p" [.var "Y", .const (.int 1)]),
         (.app "q" [.var "W", .const (.int 1)], .app "q" [.var "Z", .const (.int 2)]),
         (.var "W", .app "f" [.var "V"])]
        (Substitution.empty.insert "Z" (.app "f" [.var "X"]))).map Unification.bindings,
      T.Acyclic ∧ Unbounded.EndsOn T := by
  have hS : (Substitution.empty.insert "Z" (.app "f" [.var "X"])).Acyclic :=
    acyclic_empty.insert (acyclic_empty.occurs_eq_false_iff.mp (by decide))
  exact ⟨hS, fun T hT => ((unify_terminates _ hS).2.2 _).2 T (List.mem_cons_of_mem _ hT)⟩

end ForwardChaining
