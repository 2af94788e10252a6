import ForwardChaining.Roster
import ForwardChaining.Rule

/-!
# Stores

An engine owns two stores: one of facts, which are ground atoms, and one of rules. Both keep what they
are given in order of first arrival and keep only the first of several equal things. An atom with a
variable is no fact, and the store of facts refuses it.
-/

namespace ForwardChaining

/-- Ground atoms, no two of them equal, in order of first arrival. -/
structure FactStore where
  roster : Roster Atom
  ground : ∀ a ∈ roster.items, a.isGround = true

namespace FactStore

/-- The store without facts. -/
def empty : FactStore := { roster := .empty, ground := fun _ h => absurd h List.not_mem_nil }

instance : Inhabited FactStore := ⟨empty⟩

/-- The stored facts, in order of first arrival. -/
def facts (s : FactStore) : List Atom := s.roster.items

/-- Whether an atom equal to `a` is stored. -/
def contains (s : FactStore) (a : Atom) : Bool := s.roster.contains a

/-- The number of stored facts. -/
def size (s : FactStore) : Nat := s.roster.size

/-- The store with a fact added. -/
def insert (s : FactStore) (a : Atom) (h : a.isGround = true) : FactStore :=
  { roster := s.roster.insert a
    ground := fun b hb => (Roster.mem_of_mem_insert hb).elim (s.ground b) fun e => e ▸ h }

/-- The store with an atom added, unless the atom has a variable. -/
def add? (s : FactStore) (a : Atom) : Option FactStore :=
  if h : a.isGround = true then some (s.insert a h) else none

end FactStore

/-- Rules, no two of them equal, in order of first arrival. -/
abbrev RuleStore := Roster Rule

end ForwardChaining
