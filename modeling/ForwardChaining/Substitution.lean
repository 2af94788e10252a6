import ForwardChaining.Term

/-!
# Substitutions

A substitution binds finitely many variables to terms. The bindings are triangular: the term that a
variable is bound to may hold variables which are bound in turn, so that applying a substitution means to
follow bindings until none is left to follow.

In an acyclic substitution no variable comes back to itself along the bindings, so that a way through
them passes each binding at most once. That is why every function below may stop after as many bindings
as there are: it is total, and on acyclic substitutions it never stops early.
-/

namespace ForwardChaining

/-- A finite set of bindings; of several for one variable the first counts. -/
structure Substitution where
  bindings : List (String × Term)

namespace Substitution

/-- The substitution that binds nothing. -/
def empty : Substitution := ⟨[]⟩

/-- The term that a variable is bound to. -/
def find? (S : Substitution) (v : String) : Option Term := S.bindings.lookup v

/-- The substitution with one binding more, or with another one for a variable that was bound. -/
def insert (S : Substitution) (v : String) (t : Term) : Substitution :=
  ⟨(v, t) :: S.bindings.filter fun b => b.1 ≠ v⟩

/-- The substitution that results from binding in turn: a later pair replaces an earlier one. -/
def ofList (pairs : List (String × Term)) : Substitution :=
  pairs.foldl (fun S b => S.insert b.1 b.2) empty

/-- What a term stands for after at most `n` bindings: the first term on the way that is not a bound
variable. -/
def walkWithin (S : Substitution) : Nat → Term → Term
  | 0, t => t
  | n + 1, .var v => match S.find? v with
    | some t => walkWithin S n t
    | none => .var v
  | _ + 1, t => t

/-- What a term stands for: the first term along the bindings that is not a bound variable. -/
def walk (S : Substitution) (t : Term) : Term := S.walkWithin S.bindings.length t

/-- The term with its variables replaced along at most `n` bindings in a row. -/
def applyWithin (S : Substitution) : Nat → Term → Term
  | 0, t => t
  | n + 1, t => t.bind fun v => match S.find? v with
    | some u => applyWithin S n u
    | none => .var v

/-- The term with every variable replaced by what it stands for; unbound variables are kept. -/
def apply (S : Substitution) (t : Term) : Term := S.applyWithin S.bindings.length t

/-- Whether a variable is found in a term along at most `n` bindings in a row. -/
def occursWithin (S : Substitution) (v : String) : Nat → Term → Bool
  | 0, t => t.vars.any fun w => w = v
  | n + 1, t => t.vars.any fun w => w = v || match S.find? w with
    | some u => occursWithin S v n u
    | none => false

/-- Whether a variable is found in a term when bindings are followed. -/
def occurs (S : Substitution) (v : String) (t : Term) : Bool := S.occursWithin v S.bindings.length t

/-- An atom with every variable replaced by what it stands for. -/
def applyAtom (S : Substitution) (a : Atom) : Atom := ⟨a.functor, a.args.map S.apply⟩

/-- The number of variables, constants and functors of all bound terms. -/
def size (S : Substitution) : Nat := Term.sizeOfAll (S.bindings.map Prod.snd)

end Substitution

end ForwardChaining
