import Mathlib.Data.List.Forall2
import ForwardChaining.Term

/-!
# Terms up to equality

Two terms that count as equal, `x ≈ y`, have the same shape, the same variables and the same size; they
differ at most in how their constants are held.  What later proofs need from the comparison is collected
here:

* `equiv_rec`: a claim about all pairs of equal terms is proved by induction on their common shape.
* `app_equiv_app`: compound terms are equal when their functors are and their arguments are one by one.
* `bind_equiv`: replacing the variables of equal terms by equal terms gives equal terms.
* `size_eq_of_equiv`: equal terms have the same size, so no term is equal to a proper part of itself.

The other lemmas say what becomes of variables, size and height when variables are replaced.
-/

namespace ForwardChaining

/-- Lists are compared item by item. -/
theorem list_beq_iff_forall₂ {α : Type} [BEq α] {xs ys : List α} :
    (xs == ys) = true ↔ List.Forall₂ (fun x y => (x == y) = true) xs ys := by
  induction xs generalizing ys with
  | nil => cases ys <;> simp
  | cons x xs ih => cases ys <;> simp [ih]

theorem map_eq_of_forall₂ {α β : Type} {g : α → β} {xs ys : List α}
    (h : List.Forall₂ (fun x y => g x = g y) xs ys) : xs.map g = ys.map g := by
  induction h with
  | nil => rfl
  | cons hx _ ih => rw [List.map_cons, List.map_cons, hx, ih]

/-- To choose something for every item is to choose a list, item by item. -/
theorem forall_exists_iff_exists_forall₂ {α β : Type} {P : β → Prop} {R : α → β → Prop}
    {xs : List α} :
    (∀ x ∈ xs, ∃ y, P y ∧ R x y) ↔ ∃ ys, (∀ y ∈ ys, P y) ∧ List.Forall₂ R xs ys := by
  constructor
  · intro h
    induction xs with
    | nil => exact ⟨[], fun _ h => absurd h List.not_mem_nil, .nil⟩
    | cons x xs ih =>
      obtain ⟨hx, hxs⟩ := List.forall_mem_cons.mp h
      obtain ⟨y, hy, hxy⟩ := hx
      obtain ⟨ys, hys, hall⟩ := ih hxs
      exact ⟨y :: ys, List.forall_mem_cons.mpr ⟨hy, hys⟩, .cons hxy hall⟩
  · rintro ⟨ys, hys, hall⟩
    induction hall with
    | nil => exact fun _ h => absurd h List.not_mem_nil
    | cons hxy _ ih =>
      obtain ⟨hy, hys⟩ := List.forall_mem_cons.mp hys
      exact List.forall_mem_cons.mpr ⟨⟨_, hy, hxy⟩, ih hys⟩

namespace Term

/-- Terms are taken up to `==`. -/
instance : Setoid Term where
  r x y := (x == y) = true
  iseqv := ⟨same_self, same_symm, same_trans⟩

@[refl] theorem equiv_refl (x : Term) : x ≈ x := Setoid.refl x

theorem equiv_iff_beq {x y : Term} : x ≈ y ↔ (x == y) = true := Iff.rfl

/-! ### Equal terms have one shape -/

theorem app_equiv_app {f g : String} {xs ys : List Term} :
    app f xs ≈ app g ys ↔ f = g ∧ List.Forall₂ (· ≈ ·) xs ys := by
  rw [equiv_iff_beq, beq_eq_same, same, Bool.and_eq_true, decide_eq_true_eq, sameAll_eq_beq,
    list_beq_iff_forall₂]
  rfl

theorem not_const_equiv_app {c : Value} {f : String} {xs : List Term} : ¬ const c ≈ app f xs := by
  rw [equiv_iff_beq, beq_eq_same]
  simp [same]

/-- Only a variable itself is equal to it. -/
theorem eq_var_of_equiv {v : String} {y : Term} (h : var v ≈ y) : y = var v := by
  cases y with
  | var w => simpa [equiv_iff_beq, beq_eq_same, same, eq_comm] using h
  | const c => simp [equiv_iff_beq, beq_eq_same, same] at h
  | app f xs => simp [equiv_iff_beq, beq_eq_same, same] at h

/-- **Induction on two equal terms at once.**  Of compound terms the arguments are equal one by one, and
the claim may be assumed of each such pair. -/
theorem equiv_rec {P : ∀ x y : Term, x ≈ y → Prop}
    (var : ∀ v, P (.var v) (.var v) (Setoid.refl _))
    (const : ∀ c d (h : Term.const c ≈ .const d), P (.const c) (.const d) h)
    (app : ∀ f xs ys (h : Term.app f xs ≈ .app f ys),
      List.Forall₂ (fun x y => ∃ h, P x y h) xs ys → P (.app f xs) (.app f ys) h)
    {x y : Term} (h : x ≈ y) : P x y h := by
  induction x generalizing y with
  | var v =>
    obtain rfl := eq_var_of_equiv h
    exact var v
  | const c =>
    cases y with
    | var w => exact absurd (eq_var_of_equiv (Setoid.symm h)) (by simp)
    | const d => exact const c d h
    | app g ys => exact absurd h not_const_equiv_app
  | app f xs ih =>
    cases y with
    | var w => exact absurd (eq_var_of_equiv (Setoid.symm h)) (by simp)
    | const d => exact absurd (Setoid.symm h) not_const_equiv_app
    | app g ys =>
      obtain ⟨rfl, hxy⟩ := app_equiv_app.mp h
      refine app f xs ys h ?_
      clear h
      induction hxy with
      | nil => exact .nil
      | cons hx _ ihs =>
        exact .cons ⟨hx, ih _ (by simp) hx⟩ (ihs fun t ht => ih t (List.mem_cons_of_mem _ ht))

/-! ### Variables -/

@[simp] theorem isVar_var (v : String) : (var v).isVar = true := rfl

@[simp] theorem isVar_const (c : Value) : (const c).isVar = false := rfl

@[simp] theorem isVar_app (f : String) (args : List Term) : (app f args).isVar = false := rfl

@[simp] theorem vars_var (v : String) : (var v).vars = [v] := rfl

@[simp] theorem vars_const (c : Value) : (const c).vars = [] := rfl

@[simp] theorem mem_vars_app {v f : String} {args : List Term} :
    v ∈ (app f args).vars ↔ ∃ t ∈ args, v ∈ t.vars := by
  rw [vars, varsOf_eq_flatMap, List.mem_flatMap]

theorem isVar_eq_of_equiv {x y : Term} (h : x ≈ y) : x.isVar = y.isVar := by
  cases h using equiv_rec <;> rfl

theorem vars_eq_of_equiv {x y : Term} (h : x ≈ y) : x.vars = y.vars := by
  induction h using equiv_rec with
  | var v => rfl
  | const c d _ => rfl
  | app f xs ys _ hxy =>
    have hmap : xs.map vars = ys.map vars := map_eq_of_forall₂ (hxy.imp fun _ _ ⟨_, h⟩ => h)
    rw [vars, vars, varsOf_eq_flatMap, varsOf_eq_flatMap, List.flatMap_def, List.flatMap_def, hmap]

theorem isGround_iff {t : Term} : t.isGround = true ↔ ∀ v, v ∉ t.vars := by
  rw [isGround, List.isEmpty_iff, List.eq_nil_iff_forall_not_mem]

theorem isGround_eq_of_equiv {x y : Term} (h : x ≈ y) : x.isGround = y.isGround := by
  rw [isGround, isGround, vars_eq_of_equiv h]

theorem isGround_app {f : String} {args : List Term} :
    (app f args).isGround = true ↔ ∀ t ∈ args, t.isGround = true := by
  simp only [isGround_iff, mem_vars_app, not_exists, not_and]
  exact ⟨fun h t ht v => h v t ht, fun h v t ht => h t ht v⟩

/-! ### Replacing variables -/

@[simp] theorem bind_var (σ : String → Term) (v : String) : (var v).bind σ = σ v := rfl

@[simp] theorem bind_const (σ : String → Term) (c : Value) : (const c).bind σ = const c := rfl

@[simp] theorem bind_app (σ : String → Term) (f : String) (args : List Term) :
    (app f args).bind σ = app f (args.map (bind σ)) := by
  rw [bind, bindAll_eq_map]

theorem bind_congr {σ τ : String → Term} {t : Term} (h : ∀ v ∈ t.vars, σ v = τ v) :
    t.bind σ = t.bind τ := by
  induction t with
  | var v => exact h v (by simp)
  | const c => rfl
  | app f args ih =>
    rw [bind_app, bind_app]
    congr 1
    refine List.map_congr_left fun t ht => ih t ht fun v hv => h v ?_
    exact mem_vars_app.mpr ⟨t, ht, hv⟩

@[simp] theorem bind_var_eq_self (t : Term) : t.bind var = t := by
  induction t with
  | var v => rfl
  | const c => rfl
  | app f args ih =>
    rw [bind_app, List.map_congr_left ih, List.map_id']

theorem bind_eq_self_of_isGround {t : Term} (h : t.isGround = true) (σ : String → Term) :
    t.bind σ = t := by
  rw [bind_congr (τ := var) fun v hv => absurd hv (isGround_iff.mp h v), bind_var_eq_self]

theorem mem_vars_bind {σ : String → Term} {v : String} {t : Term} :
    v ∈ (t.bind σ).vars ↔ ∃ w ∈ t.vars, v ∈ (σ w).vars := by
  induction t with
  | var w => simp
  | const c => simp
  | app f args ih =>
    rw [bind_app, mem_vars_app]
    constructor
    · rintro ⟨u, hu, hv⟩
      obtain ⟨t, ht, rfl⟩ := List.mem_map.mp hu
      obtain ⟨w, hw, hvw⟩ := (ih t ht).mp hv
      exact ⟨w, mem_vars_app.mpr ⟨t, ht, hw⟩, hvw⟩
    · rintro ⟨w, hw, hvw⟩
      obtain ⟨t, ht, hwt⟩ := mem_vars_app.mp hw
      exact ⟨t.bind σ, List.mem_map_of_mem ht, (ih t ht).mpr ⟨w, hwt, hvw⟩⟩

/-- **Equal for equal.**  Equal terms stay equal when their variables are replaced by equal terms. -/
theorem bind_equiv {σ τ : String → Term} {x y : Term} (h : x ≈ y)
    (hστ : ∀ v ∈ x.vars, σ v ≈ τ v) : x.bind σ ≈ y.bind τ := by
  induction h using equiv_rec with
  | var v => exact hστ v (by simp)
  | const c d h => exact h
  | app f xs ys h hxy =>
    clear h
    rw [bind_app, bind_app]
    refine app_equiv_app.mpr ⟨rfl, ?_⟩
    have hargs : ∀ x ∈ xs, ∀ v ∈ x.vars, σ v ≈ τ v :=
      fun x hx v hv => hστ v (mem_vars_app.mpr ⟨x, hx, hv⟩)
    clear hστ
    induction hxy with
    | nil => exact .nil
    | cons hx _ ihs =>
      obtain ⟨_, hx⟩ := hx
      exact .cons (hx (hargs _ (by simp))) (ihs fun x hx => hargs x (List.mem_cons_of_mem _ hx))

/-! ### Size and height -/

theorem size_le_sizeOfAll {t : Term} {ts : List Term} (h : t ∈ ts) : t.size ≤ sizeOfAll ts := by
  induction ts with
  | nil => exact absurd h List.not_mem_nil
  | cons u us ih =>
    rw [sizeOfAll]
    rcases List.mem_cons.mp h with rfl | h
    · omega
    · have := ih h
      omega

theorem size_lt_of_mem {t : Term} {f : String} {args : List Term} (h : t ∈ args) :
    t.size < (app f args).size := by
  rw [size]
  have := size_le_sizeOfAll h
  omega

theorem size_eq_of_equiv {x y : Term} (h : x ≈ y) : x.size = y.size := by
  induction h using equiv_rec with
  | var v => rfl
  | const c d _ => rfl
  | app f xs ys h hxy =>
    clear h
    rw [size, size]
    congr 1
    induction hxy with
    | nil => rfl
    | cons hx _ ihs =>
      obtain ⟨_, hx⟩ := hx
      rw [sizeOfAll, sizeOfAll, hx, ihs]

/-- What replaces a variable is no larger than the whole. -/
theorem size_le_size_bind {σ : String → Term} {v : String} {t : Term} (h : v ∈ t.vars) :
    (σ v).size ≤ (t.bind σ).size := by
  induction t with
  | var w =>
    rw [List.mem_singleton.mp h]
    exact Nat.le_refl _
  | const c => exact absurd h List.not_mem_nil
  | app f args ih =>
    obtain ⟨t, ht, hv⟩ := mem_vars_app.mp h
    rw [bind_app]
    exact Nat.le_trans (ih t ht hv) (Nat.le_of_lt (size_lt_of_mem (List.mem_map_of_mem ht)))

/-- What replaces a variable of a compound term is smaller than the whole. -/
theorem size_lt_size_bind_app {σ : String → Term} {v f : String} {args : List Term}
    (h : v ∈ (app f args).vars) : (σ v).size < ((app f args).bind σ).size := by
  obtain ⟨t, ht, hv⟩ := mem_vars_app.mp h
  rw [bind_app]
  exact Nat.lt_of_le_of_lt (size_le_size_bind hv) (size_lt_of_mem (List.mem_map_of_mem ht))

theorem length_varsOf_le (ts : List Term) (h : ∀ t ∈ ts, t.vars.length ≤ t.size) :
    (varsOf ts).length ≤ sizeOfAll ts := by
  induction ts with
  | nil => exact Nat.le_refl _
  | cons t ts ih =>
    rw [varsOf, sizeOfAll, List.length_append]
    have := h t (by simp)
    have := ih fun u hu => h u (List.mem_cons_of_mem _ hu)
    omega

theorem length_vars_le (t : Term) : t.vars.length ≤ t.size := by
  induction t with
  | var v => exact Nat.le_refl _
  | const c => exact Nat.zero_le _
  | app f args ih =>
    rw [vars, size]
    have := length_varsOf_le args ih
    omega

theorem height_le_heightOfAll {t : Term} {ts : List Term} (h : t ∈ ts) :
    t.height ≤ heightOfAll ts := by
  induction ts with
  | nil => exact absurd h List.not_mem_nil
  | cons u us ih =>
    rw [heightOfAll]
    rcases List.mem_cons.mp h with rfl | h
    · exact Nat.le_max_left _ _
    · exact Nat.le_trans (ih h) (Nat.le_max_right _ _)

theorem heightOfAll_le {ts : List Term} {n : Nat} (h : ∀ t ∈ ts, t.height ≤ n) :
    heightOfAll ts ≤ n := by
  induction ts with
  | nil => exact Nat.zero_le _
  | cons t ts ih =>
    rw [heightOfAll]
    exact Nat.max_le.mpr ⟨h t (by simp), ih fun u hu => h u (List.mem_cons_of_mem _ hu)⟩

theorem height_lt_of_mem {t : Term} {f : String} {args : List Term} (h : t ∈ args) :
    t.height < (app f args).height := by
  rw [height]
  exact Nat.lt_succ_of_le (height_le_heightOfAll h)

theorem height_le_size (t : Term) : t.height ≤ t.size := by
  induction t with
  | var v => exact Nat.zero_le _
  | const c => exact Nat.zero_le _
  | app f args ih =>
    rw [height, size]
    have : heightOfAll args ≤ sizeOfAll args :=
      heightOfAll_le fun t ht => Nat.le_trans (ih t ht) (size_le_sizeOfAll ht)
    omega

/-- Replacing variables adds at most the height of what replaces them. -/
theorem height_bind_le {σ : String → Term} {n : Nat} {t : Term}
    (h : ∀ v ∈ t.vars, (σ v).height ≤ n) : (t.bind σ).height ≤ t.height + n := by
  induction t with
  | var v =>
    have := h v (by simp)
    rw [bind_var]
    omega
  | const c => exact Nat.zero_le _
  | app f args ih =>
    rw [bind_app, height, height]
    have : heightOfAll (args.map (bind σ)) ≤ heightOfAll args + n := by
      refine heightOfAll_le fun u hu => ?_
      obtain ⟨t, ht, rfl⟩ := List.mem_map.mp hu
      have := ih t ht fun v hv => h v (mem_vars_app.mpr ⟨t, ht, hv⟩)
      have := height_le_heightOfAll ht
      omega
    omega

end Term

end ForwardChaining
