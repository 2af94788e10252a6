import ForwardChaining.Proofs.Unification.Meeting

/-!
# How unification changes the bindings

Whatever the verdict, an attempt to unify leaves the bindings that it found and adds some of its own, each
for a variable that was unbound, to a term that does not reach it (`Grows`).  So acyclic bindings stay
acyclic, on success and on failure alike.

A growth also stays within any set `U` of terms that holds the two given ones and that is closed under
taking arguments and following bindings (`Confined`).  With a set of terms that are small and hold few
variables this bounds the height of whatever the terms stand for at any time, and that the bound on the
depth is never reached follows: `unify_verdict_ne_unfinished`.
-/

namespace ForwardChaining

open Substitution

variable {U : Term → Prop} {S S' S'' : Substitution}

/-- The bindings `S` are acyclic and lead nowhere out of `U`, nor does taking arguments. -/
structure Confined (U : Term → Prop) (S : Substitution) : Prop where
  acyclic : S.Acyclic
  arg : ∀ f args, U (.app f args) → ∀ t ∈ args, U t
  bound : ∀ v t, U (.var v) → S.find? v = some t → U t

/-- Acyclic bindings are confined to the set of all terms. -/
theorem confined_univ (hS : S.Acyclic) : Confined (fun _ => True) S :=
  ⟨hS, fun _ _ _ _ _ => trivial, fun _ _ _ _ => trivial⟩

theorem Confined.walk (hS : Confined U S) {t : Term} (ht : U t) : U (S.walk t) := by
  induction t using hS.acyclic.induction with
  | unbound v hv => rwa [walk_of_unbound hv]
  | bound v u hv ih =>
    rw [hS.acyclic.walk_of_bound hv]
    exact ih (hS.bound v u ht hv)
  | const c => rwa [walk_const]
  | app f args _ => rwa [walk_app]

theorem Confined.insert (hS : Confined U S) {v : String} {t : Term} (ht : U t)
    (hr : ¬ S.Reaches t v) : Confined U (S.insert v t) where
  acyclic := hS.acyclic.insert hr
  arg := hS.arg
  bound := by
    intro w u hw hu
    rw [find?_insert] at hu
    by_cases hwv : w = v
    · rw [if_pos hwv, Option.some.injEq] at hu
      exact hu ▸ ht
    · rw [if_neg hwv] at hu
      exact hS.bound w u hw hu

/-- `S'` comes from `S` by binding, one after another, unbound variables to terms that do not reach them,
all of them in `U`. -/
inductive Grows (U : Term → Prop) (S : Substitution) : Substitution → Prop
  | refl : Grows U S S
  | bind {S' : Substitution} {v : String} {t : Term} : Grows U S S' → S'.find? v = none →
      U (.var v) → U t → ¬ S'.Reaches t v → Grows U S (S'.insert v t)

theorem Grows.trans (h : Grows U S S') (h' : Grows U S' S'') : Grows U S S'' := by
  induction h' with
  | refl => exact h
  | bind _ hv hUv hUt hr ih => exact .bind ih hv hUv hUt hr

theorem Grows.le (h : Grows U S S') : S ≤ S' := by
  induction h with
  | refl => exact le_refl S
  | bind _ hv _ _ _ ih => exact le_trans ih (le_insert _ hv)

/-- Only variables in `U` are bound. -/
theorem Grows.find?_eq_none (h : Grows U S S') {v : String} (hv : S.find? v = none)
    (hU : ¬ U (.var v)) : S'.find? v = none := by
  induction h with
  | refl => exact hv
  | bind _ _ hw _ _ ih =>
    rw [find?_insert, if_neg]
    · exact ih
    · rintro rfl
      exact hU hw

/-- **A binding that was not there** is one of a variable in `U` to a term in `U`. -/
theorem Grows.find?_eq_some (h : Grows U S S') {v : String} {t : Term} (hv : S'.find? v = some t) :
    S.find? v = some t ∨ S.find? v = none ∧ U (.var v) ∧ U t := by
  induction h with
  | refl => exact .inl hv
  | @bind S' w u hgrows hw hUw hUu _ ih =>
    rw [find?_insert] at hv
    by_cases hvw : v = w
    · subst hvw
      rw [if_pos rfl, Option.some.injEq] at hv
      subst hv
      refine .inr ⟨Option.eq_none_iff_forall_ne_some.mpr fun s hs => ?_, hUw, hUu⟩
      exact absurd ((hgrows.le _ _ hs).symm.trans hw) (by simp)
    · rw [if_neg hvw] at hv
      exact ih hv

theorem Grows.confined (h : Grows U S S') (hS : Confined U S) : Confined U S' := by
  induction h with
  | refl => exact hS
  | bind _ _ _ hUt hr ih => exact ih.insert hUt hr

/-! ### Unification grows its bindings -/

theorem Either.imp {P : Term → Prop} {x y a b : Term} (h : Either x y a b) (hx : P x) (hy : P y) :
    P a ∧ P b := by
  rcases h with ⟨rfl, rfl⟩ | ⟨rfl, rfl⟩
  · exact ⟨hx, hy⟩
  · exact ⟨hy, hx⟩

/-- A variable that is met by walking is unbound. -/
theorem Either.find?_eq_none (hS : S.Acyclic) {x y t : Term} {v : String}
    (h : Either (S.walk x) (S.walk y) (.var v) t) : S.find? v = none :=
  (h.imp (P := fun s => ∀ v, s = .var v → S.find? v = none)
    (fun _ => hS.find?_of_walk_eq_var) (fun _ => hS.find?_of_walk_eq_var)).1 v rfl

theorem unifyInStep_grows {step : Term → Term → Substitution → Unification}
    (hstep : ∀ x y S, Confined U S → U x → U y → Grows U S (step x y S).bindings)
    {xs ys : List Term} (hS : Confined U S) (hxs : ∀ x ∈ xs, U x) (hys : ∀ y ∈ ys, U y) :
    Grows U S (unifyInStep step xs ys S).bindings := by
  induction xs generalizing ys S with
  | nil => cases ys <;> exact .refl
  | cons x xs ih =>
    cases ys with
    | nil => exact .refl
    | cons y ys =>
      have hfirst := hstep x y S hS (hxs x (by simp)) (hys y (by simp))
      rw [unifyInStep_cons]
      split
      · refine hfirst.trans (ih (hfirst.confined hS) ?_ ?_)
        · exact fun t ht => hxs t (List.mem_cons_of_mem _ ht)
        · exact fun t ht => hys t (List.mem_cons_of_mem _ ht)
      · exact hfirst

/-- **Unification only adds bindings**, and it adds them within every set that its terms are confined to. -/
theorem unifyWithin_grows {depth : Nat} {x y : Term} (hS : Confined U S) (hx : U x) (hy : U y) :
    Grows U S (unifyWithin depth x y S).bindings := by
  induction depth generalizing x y S with
  | zero => exact .refl
  | succ depth ih =>
    have hmeet := unifyWithin_meeting depth x y S
    have hx' := hS.walk hx
    have hy' := hS.walk hy
    generalize unifyWithin (depth + 1) x y S = u at hmeet
    cases hmeet with
    | equal _ => exact .refl
    | bound hxy _ ho =>
      obtain ⟨hv, ht⟩ := hxy.imp hx' hy'
      exact .bind .refl (hxy.find?_eq_none hS.acyclic) hv ht (hS.acyclic.occurs_eq_false_iff.mp ho)
    | refused _ _ _ => exact .refl
    | args hxy =>
      obtain ⟨hxs, hys⟩ := hxy.imp hx' hy'
      exact unifyInStep_grows (fun x y S hS hx hy => ih hS hx hy) hS (hS.arg _ _ hxs)
        (hS.arg _ _ hys)
    | clash _ => exact .refl

theorem unify_grows {x y : Term} (hS : Confined U S) (hx : U x) (hy : U y) :
    Grows U S (unify x y S).bindings := unifyWithin_grows hS hx hy

theorem unifyWithin_acyclic {depth : Nat} {x y : Term} (hS : S.Acyclic) :
    (unifyWithin depth x y S).bindings.Acyclic :=
  ((unifyWithin_grows (confined_univ hS) trivial trivial).confined (confined_univ hS)).acyclic

theorem unifyInStep_acyclic {depth : Nat} {xs ys : List Term} (hS : S.Acyclic) :
    (unifyInStep (unifyWithin depth) xs ys S).bindings.Acyclic :=
  ((unifyInStep_grows (fun _ _ _ h hx hy => unifyWithin_grows h hx hy) (confined_univ hS)
    (fun _ _ => trivial) (fun _ _ => trivial)).confined (confined_univ hS)).acyclic

theorem le_unifyWithin {depth : Nat} {x y : Term} (hS : S.Acyclic) :
    S ≤ (unifyWithin depth x y S).bindings :=
  (unifyWithin_grows (confined_univ hS) trivial trivial).le

theorem le_unifyInStep {depth : Nat} {xs ys : List Term} (hS : S.Acyclic) :
    S ≤ (unifyInStep (unifyWithin depth) xs ys S).bindings :=
  (unifyInStep_grows (fun _ _ _ h hx hy => unifyWithin_grows h hx hy) (confined_univ hS)
    (fun _ _ => trivial) (fun _ _ => trivial)).le

theorem unify_acyclic {x y : Term} (hS : S.Acyclic) : (unify x y S).bindings.Acyclic :=
  unifyWithin_acyclic hS

theorem le_unify {x y : Term} (hS : S.Acyclic) : S ≤ (unify x y S).bindings := le_unifyWithin hS

/-! ### Heights while unifying -/

theorem height_applyWithin_le {n k : Nat} {t : Term}
    (hS : ∀ v u, S.find? v = some u → u.height ≤ k) :
    (S.applyWithin n t).height ≤ t.height + n * k := by
  induction n generalizing t with
  | zero => exact Nat.le_add_right _ _
  | succ n ih =>
    rw [applyWithin]
    refine Term.height_bind_le fun v _ => ?_
    cases hv : S.find? v with
    | none => exact Nat.zero_le _
    | some u =>
      have hu := hS v u hv
      have : (S.applyWithin n u).height ≤ u.height + n * k := ih
      rw [Nat.succ_mul]
      show (S.applyWithin n u).height ≤ n * k + k
      omega

theorem exists_le_height_of_unfinished {depth : Nat}
    (hstep : ∀ x y S, Acyclic S → (unifyWithin depth x y S).verdict = .unfinished →
      depth ≤ ((unifyWithin depth x y S).bindings.apply x).height ∨
        depth ≤ ((unifyWithin depth x y S).bindings.apply y).height)
    {xs ys : List Term} {u : Unification} (hS : S.Acyclic)
    (hu : unifyInStep (unifyWithin depth) xs ys S = u) (h : u.verdict = .unfinished) :
    (∃ x ∈ xs, depth ≤ (u.bindings.apply x).height) ∨
      ∃ y ∈ ys, depth ≤ (u.bindings.apply y).height := by
  induction xs generalizing ys S with
  | nil => cases ys <;> (subst hu; simp [unifyInStep] at h)
  | cons x xs ih =>
    cases ys with
    | nil => subst hu; simp [unifyInStep] at h
    | cons y ys =>
      rw [unifyInStep_cons] at hu
      split at hu
      · rcases ih (unifyWithin_acyclic hS) hu with ⟨t, ht, hle⟩ | ⟨t, ht, hle⟩
        · exact .inl ⟨t, List.mem_cons_of_mem _ ht, hle⟩
        · exact .inr ⟨t, List.mem_cons_of_mem _ ht, hle⟩
      · subst hu
        rcases hstep x y S hS h with hle | hle
        · exact .inl ⟨x, by simp, hle⟩
        · exact .inr ⟨y, by simp, hle⟩

/-- **An attempt that reaches the bound on the depth has gone that deep** into what one of its terms stands
for in the end. -/
theorem le_height_of_unfinished {depth : Nat} {x y : Term} {u : Unification} (hS : S.Acyclic)
    (hu : unifyWithin depth x y S = u) (h : u.verdict = .unfinished) :
    depth ≤ (u.bindings.apply x).height ∨ depth ≤ (u.bindings.apply y).height := by
  induction depth generalizing x y S u with
  | zero => exact .inl (Nat.zero_le _)
  | succ depth ih =>
    have hmeet := unifyWithin_meeting depth x y S
    have hS' : u.bindings.Acyclic := hu ▸ unifyWithin_acyclic hS
    have hle : S ≤ u.bindings := hu ▸ le_unifyWithin hS
    rw [← hS.apply_walk hS' hle x, ← hS.apply_walk hS' hle y]
    rw [hu] at hmeet
    clear hu
    cases hmeet with
    | equal _ => exact absurd h (by simp)
    | bound _ _ _ => exact absurd h (by simp)
    | refused _ _ _ => exact absurd h (by simp)
    | clash _ => exact absurd h (by simp)
    | @args f xs ys hxy =>
      have hdeep : ∀ {t : Term} {ts : List Term} {T : Substitution}, t ∈ ts →
          depth ≤ (T.apply t).height → depth + 1 ≤ (T.apply (.app f ts)).height := by
        intro t ts T ht hd
        rw [apply_app]
        have := Term.height_lt_of_mem (f := f) (List.mem_map_of_mem (f := T.apply) ht)
        omega
      have hargs := exists_le_height_of_unfinished (fun x y S hS h => ih hS rfl h) hS rfl h
      rcases hxy with ⟨hx, hy⟩ | ⟨hx, hy⟩ <;> rw [hx, hy]
      · rcases hargs with ⟨t, ht, hd⟩ | ⟨t, ht, hd⟩
        · exact .inl (hdeep ht hd)
        · exact .inr (hdeep ht hd)
      · rcases hargs with ⟨t, ht, hd⟩ | ⟨t, ht, hd⟩
        · exact .inr (hdeep ht hd)
        · exact .inl (hdeep ht hd)

/-- The terms of at most a given size with variables from a given list. -/
def Fits (n : Nat) (vs : List String) (t : Term) : Prop := t.size ≤ n ∧ t.vars ⊆ vs

theorem Grows.height_le {n : Nat} {vs : List String} (h : Grows (Fits n vs) S S')
    (hS : ∀ v u, S.find? v = some u → u.height ≤ n) :
    ∀ v u, S'.find? v = some u → u.height ≤ n := by
  induction h with
  | refl => exact hS
  | @bind S' v t _ _ _ ht _ ih =>
    intro w u hu
    rw [find?_insert] at hu
    by_cases hw : w = v
    · rw [if_pos hw, Option.some.injEq] at hu
      exact hu ▸ Nat.le_trans (Term.height_le_size t) ht.1
    · rw [if_neg hw] at hu
      exact ih w u hu

/-- Only variables of the list are newly bound, and each of them once. -/
theorem Grows.length_le {n : Nat} {vs : List String} (h : Grows (Fits n vs) S S') :
    S'.bindings.length ≤ S.bindings.length + vs.length := by
  have hnew : ∃ new : List String, new.Nodup ∧ new ⊆ vs ∧ (∀ v ∈ new, S'.find? v ≠ none) ∧
      S'.bindings.length ≤ S.bindings.length + new.length := by
    induction h with
    | refl =>
      exact ⟨[], List.nodup_nil, List.nil_subset _, fun _ h => absurd h List.not_mem_nil,
        Nat.le_refl _⟩
    | @bind S' v t _ hv hfv _ _ ih =>
      obtain ⟨new, hnd, hsub, hbound, hlen⟩ := ih
      refine ⟨v :: new, List.nodup_cons.mpr ⟨fun h => hbound v h hv, hnd⟩,
        List.cons_subset.mpr ⟨hfv.2 (by simp), hsub⟩, ?_, ?_⟩
      · intro w hw
        rw [find?_insert]
        by_cases hwv : w = v
        · rw [if_pos hwv]
          exact Option.some_ne_none t
        · rw [if_neg hwv]
          exact hbound w ((List.mem_cons.mp hw).resolve_left hwv)
      · rw [Substitution.insert, List.length_cons, List.length_cons]
        have := List.length_filter_le (fun b : String × Term => decide (b.1 ≠ v)) S'.bindings
        omega
  obtain ⟨new, hnd, hsub, _, hlen⟩ := hnew
  have := (List.subperm_of_subset hnd hsub).length_le
  omega

theorem size_le_of_find? {v : String} {t : Term} (h : S.find? v = some t) : t.size ≤ S.size :=
  Term.size_le_sizeOfAll (List.mem_map_of_mem (mem_bindings_of_find? h))

theorem vars_subset_varsOf {t : Term} {ts : List Term} (h : t ∈ ts) : t.vars ⊆ Term.varsOf ts := by
  intro v hv
  rw [Term.varsOf_eq_flatMap]
  exact List.mem_flatMap.mpr ⟨t, h, hv⟩

/-- What the two terms stand for after unifying them is no higher than the bound allows for. -/
theorem height_apply_unify_lt {x y t : Term} (hS : S.Acyclic) (ht : t = x ∨ t = y) :
    ((unify x y S).bindings.apply t).height < depthBound x y S := by
  let given := x :: y :: S.bindings.map Prod.snd
  let total := x.size + y.size + S.size
  have htotal : Term.sizeOfAll given = total := by
    simp only [given, total, Term.sizeOfAll, Substitution.size]
    omega
  have hfits : ∀ t ∈ given, Fits total (Term.varsOf given) t := fun t ht =>
    ⟨htotal ▸ Term.size_le_sizeOfAll ht, vars_subset_varsOf ht⟩
  have hconf : Confined (Fits total (Term.varsOf given)) S := by
    refine ⟨hS, fun f args h t ht => ⟨?_, fun v hv => ?_⟩, fun v t _ hv => ?_⟩
    · exact Nat.le_trans (Nat.le_of_lt (Term.size_lt_of_mem ht)) h.1
    · exact h.2 (Term.mem_vars_app.mpr ⟨t, ht, hv⟩)
    · refine hfits t (List.mem_cons_of_mem _ (List.mem_cons_of_mem _ ?_))
      exact List.mem_map_of_mem (mem_bindings_of_find? hv)
  have hgrow : Grows (Fits total (Term.varsOf given)) S (unify x y S).bindings :=
    unify_grows hconf (hfits x (by simp [given])) (hfits y (by simp [given]))
  have hvals := hgrow.height_le fun v u hv => by
    have := Term.height_le_size u
    have := size_le_of_find? hv
    omega
  have hlen : (unify x y S).bindings.bindings.length ≤ S.bindings.length + total := by
    have := hgrow.length_le
    have := Term.length_varsOf_le given fun t _ => Term.length_vars_le t
    omega
  have hheight : t.height ≤ total := by
    have := Term.height_le_size x
    have := Term.height_le_size y
    rcases ht with rfl | rfl <;> omega
  calc ((unify x y S).bindings.apply t).height
      ≤ t.height + (unify x y S).bindings.bindings.length * total := height_applyWithin_le hvals
    _ ≤ total + (S.bindings.length + total) * total :=
        Nat.add_le_add hheight (Nat.mul_le_mul_right _ hlen)
    _ = total * (total + S.bindings.length + 1) := by
        rw [Nat.mul_succ, Nat.mul_comm, Nat.add_comm total, Nat.add_comm S.bindings.length]
    _ < depthBound x y S := Nat.lt_succ_self _

/-- **On acyclic bindings the bound on the depth is never reached.** -/
theorem unify_verdict_ne_unfinished {x y : Term} (hS : S.Acyclic) :
    (unify x y S).verdict ≠ .unfinished := by
  intro h
  rcases le_height_of_unfinished hS rfl h with hx | hy
  · exact Nat.not_lt.mpr hx (height_apply_unify_lt hS (.inl rfl))
  · exact Nat.not_lt.mpr hy (height_apply_unify_lt hS (.inr rfl))

end ForwardChaining
