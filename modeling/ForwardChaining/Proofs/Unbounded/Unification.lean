import ForwardChaining.Unification

/-!
# Unification as a plain recursion

`resolve`, `apply`, `occurs` and `unify` once more, as recursions that follow one binding after another and
that nothing bounds.  On cyclic bindings they need not come to an end.  An answer `none` stands for a
recursion that never ends, and each function is the least one that obeys its equation.

A call of `unify` on a variable goes to `unifyVar`, which goes back to `unify` with what the variable is
bound to, and binds it only when nothing is left to follow.
-/

namespace ForwardChaining.Unbounded

/-- The first term along the bindings that is not a bound variable. -/
def resolve (S : Substitution) (t : Term) : Option Term :=
  match t with
  | .var v => match S.find? v with
    | some u => (resolve (t := u)) S
    | none => some (.var v)
  | t => some t
partial_fixpoint

def apply (S : Substitution) (t : Term) : Option Term :=
  match t with
  | .var v => match S.find? v with
    | some u => (apply (t := u)) S
    | none => some (.var v)
  | .const c => some (.const c)
  | .app f args =>
    if S.bindings.isEmpty then some (.app f args)
    else do
      let args' ← args.mapM fun t => (apply (t := t)) S
      return .app f args'
partial_fixpoint

def occurs (S : Substitution) (v : String) (t : Term) : Option Bool :=
  match t with
  | .var w =>
    if v = w then some true
    else match S.find? w with
      | some u => (occurs (t := u)) S v
      | none => some false
  | .const _ => some false
  | .app _ args => args.anyM fun t => (occurs (t := t)) S v
partial_fixpoint

def bindUnlessOccurs (v : String) (t : Term) (S : Substitution) : Option Unification := do
  if ← occurs S v t then return ⟨.occurs v t, S⟩ else return ⟨.unified, S.insert v t⟩

mutual
/-- Unify two terms, with the bindings that are there. -/
def unify (x y : Term) (S : Substitution) : Option Unification :=
  if x == y then some ⟨.unified, S⟩
  else match x, y with
    | .var v, t => (unifyVar (S := S)) v t
    | t, .var v => (unifyVar (S := S)) v t
    | .app f xs, .app g ys =>
      if f = g ∧ xs.length = ys.length then (unifyPairs (S := S)) (xs.zip ys) else some ⟨.clash, S⟩
    | _, _ => some ⟨.clash, S⟩
partial_fixpoint

/-- Unify a variable with a term: through a binding of either, or else by a new binding. -/
def unifyVar (v : String) (t : Term) (S : Substitution) : Option Unification :=
  match S.find? v with
  | some u => (unify (S := S)) u t
  | none => match t with
    | .var w => match S.find? w with
      | some u => (unify (S := S)) (.var v) u
      | none => bindUnlessOccurs v (.var w) S
    | t => bindUnlessOccurs v t S
partial_fixpoint

def unifyPairs (pairs : List (Term × Term)) (S : Substitution) : Option Unification :=
  match pairs with
  | [] => some ⟨.unified, S⟩
  | (x, y) :: rest => do
    let u ← (unify (S := S)) x y
    if u.isUnified then (unifyPairs (S := u.bindings)) rest else return u
partial_fixpoint
end

def unifyInTurn : List (Term × Term) → Substitution → Option (List Unification)
  | [], _ => some []
  | (x, y) :: rest, S => do
    let u ← unify x y S
    let us ← unifyInTurn rest u.bindings
    return u :: us

end ForwardChaining.Unbounded
