import ForwardChaining.Value

/-!
# Terms

A term is a variable, a constant, or a functor applied to arguments. Atoms are the terms of the last
kind by themselves: facts are atoms without variables, and rules are made of atoms.

The functions of this module follow the shape of a term. Each of them is a pair, one half for a term
and one for a list of arguments; the lemmas below say that the half for lists is the other one taken
argument by argument, so that proofs need only speak of terms (`Term.rec'`).

Two terms are equal, `x == y`, when they have the same shape and equal constants at the same places.
This is an equivalence relation, since equality of values is one.
-/

namespace ForwardChaining

/-- A term. A functor without arguments is a compound term, and not a constant. -/
inductive Term where
  | var (name : String)
  | const (value : Value)
  | app (functor : String) (args : List Term)

/-- A functor applied to arguments. -/
structure Atom where
  functor : String
  args : List Term

/-- An atom as a term. -/
def Atom.toTerm (a : Atom) : Term := .app a.functor a.args

namespace Term

/-- Induction on terms: for a compound term the claim may be assumed of every argument. -/
@[induction_eliminator]
theorem rec' {P : Term → Prop} (var : ∀ v, P (.var v)) (const : ∀ c, P (.const c))
    (app : ∀ f args, (∀ t ∈ args, P t) → P (.app f args)) : ∀ t, P t :=
  Term.rec (motive_1 := P) (motive_2 := fun args => ∀ t ∈ args, P t) var const app
    (fun _ h => absurd h (List.not_mem_nil))
    (fun _ _ ht hts _ h => by
      rcases List.mem_cons.1 h with h | h
      · exact h ▸ ht
      · exact hts _ h)

mutual
/-- The names of the variables of a term, from left to right, each as often as it occurs. -/
def vars : Term → List String
  | .var v => [v]
  | .const _ => []
  | .app _ args => varsOf args

/-- The names of the variables of a list of terms. -/
def varsOf : List Term → List String
  | [] => []
  | t :: ts => t.vars ++ varsOf ts
end

mutual
/-- The term with each variable replaced by the term that `σ` gives for it. -/
def bind (σ : String → Term) : Term → Term
  | .var v => σ v
  | .const c => .const c
  | .app f args => .app f (bindAll σ args)

/-- The terms with each variable replaced. -/
def bindAll (σ : String → Term) : List Term → List Term
  | [] => []
  | t :: ts => t.bind σ :: bindAll σ ts
end

mutual
/-- The number of variables, constants and functors of a term. -/
def size : Term → Nat
  | .var _ => 1
  | .const _ => 1
  | .app _ args => sizeOfAll args + 1

/-- The number of variables, constants and functors of a list of terms. -/
def sizeOfAll : List Term → Nat
  | [] => 0
  | t :: ts => t.size + sizeOfAll ts
end

mutual
/-- The number of functors on the longest way down a term. -/
def height : Term → Nat
  | .var _ => 0
  | .const _ => 0
  | .app _ args => heightOfAll args + 1

/-- The greatest height of a list of terms. -/
def heightOfAll : List Term → Nat
  | [] => 0
  | t :: ts => max t.height (heightOfAll ts)
end

mutual
/-- Whether two terms are equal. -/
def same : Term → Term → Bool
  | .var v, .var w => v = w
  | .const a, .const b => a.same b
  | .app f xs, .app g ys => f = g && sameAll xs ys
  | _, _ => false

/-- Whether two lists of terms are equal, term by term. -/
def sameAll : List Term → List Term → Bool
  | [], [] => true
  | x :: xs, y :: ys => x.same y && sameAll xs ys
  | _, _ => false
end

instance : BEq Term := ⟨same⟩

/-- Whether a term is a variable. -/
def isVar : Term → Bool
  | .var _ => true
  | _ => false

/-- A term is ground if it has no variables, at any depth. -/
def isGround (t : Term) : Bool := t.vars.isEmpty

/-! ### The halves for lists -/

theorem varsOf_eq_flatMap (ts : List Term) : varsOf ts = ts.flatMap vars := by
  induction ts with
  | nil => rfl
  | cons t ts ih => simp [varsOf, ih]

theorem bindAll_eq_map (σ : String → Term) (ts : List Term) : bindAll σ ts = ts.map (bind σ) := by
  induction ts with
  | nil => rfl
  | cons t ts ih => simp [bindAll, ih]

theorem sameAll_eq_beq (xs ys : List Term) : sameAll xs ys = (xs == ys) := by
  induction xs generalizing ys with
  | nil => cases ys <;> rfl
  | cons x xs ih =>
    cases ys with
    | nil => rfl
    | cons y ys => simp only [sameAll, ih]; rfl

/-! ### Equality -/

theorem beq_eq_same (x y : Term) : (x == y) = x.same y := rfl

theorem same_self (x : Term) : x.same x = true := by
  induction x with
  | var v => simp [same]
  | const c => simp [same]
  | app f args ih =>
    suffices sameAll args args = true by simp [same, this]
    induction args with
    | nil => rfl
    | cons t ts ihs => simp_all [sameAll]

theorem same_symm {x y : Term} (h : x.same y = true) : y.same x = true := by
  induction x generalizing y with
  | var v => cases y <;> simp_all [same]
  | const c => cases y <;> simp_all [same, Value.same_symm]
  | app f args ih =>
    cases y with
    | app g brgs =>
      simp only [same, Bool.and_eq_true, decide_eq_true_eq] at h ⊢
      obtain ⟨hf, h⟩ := h
      refine ⟨hf.symm, ?_⟩
      clear hf
      induction args generalizing brgs with
      | nil => cases brgs <;> simp_all [sameAll]
      | cons t ts ihs =>
        cases brgs with
        | nil => simp [sameAll] at h
        | cons u us =>
          simp only [sameAll, Bool.and_eq_true] at h ⊢
          exact ⟨ih t (by simp) h.1, ihs (fun a ha => ih a (by simp [ha])) us h.2⟩
    | _ => simp [same] at h

theorem same_trans {x y z : Term} (hxy : x.same y = true) (hyz : y.same z = true) :
    x.same z = true := by
  induction x generalizing y z with
  | var v => cases y <;> cases z <;> simp_all [same]
  | const c => cases y <;> cases z <;> simp_all [same]; exact Value.same_trans hxy hyz
  | app f args ih =>
    cases y <;> cases z <;>
      simp only [same, Bool.and_eq_true, decide_eq_true_eq, Bool.false_eq_true] at hxy hyz ⊢
    rename_i g brgs h crgs
    obtain ⟨hfg, hxy⟩ := hxy
    obtain ⟨hgh, hyz⟩ := hyz
    refine ⟨hfg.trans hgh, ?_⟩
    clear hfg hgh
    induction args generalizing brgs crgs with
    | nil => cases brgs <;> cases crgs <;> simp_all [sameAll]
    | cons t ts ihs =>
      cases brgs <;> cases crgs <;>
        simp only [sameAll, Bool.and_eq_true, Bool.false_eq_true] at hxy hyz ⊢
      exact ⟨ih t (by simp) hxy.1 hyz.1, ihs (fun a ha => ih a (by simp [ha])) _ _ hxy.2 hyz.2⟩

instance : EquivBEq Term where
  rfl := same_self _
  symm := same_symm
  trans := same_trans

end Term

namespace Atom

/-- The names of the variables of an atom. -/
def vars (a : Atom) : List String := a.toTerm.vars

/-- An atom is ground if it has no variables, at any depth. -/
def isGround (a : Atom) : Bool := a.toTerm.isGround

/-- Atoms are equal when they are equal as terms. -/
instance : BEq Atom := ⟨fun a b => a.toTerm == b.toTerm⟩

instance : EquivBEq Atom where
  rfl := Term.same_self _
  symm := Term.same_symm
  trans := Term.same_trans

end Atom

end ForwardChaining
