/-!
# Rosters

A roster is a list in order of first arrival in which no two items are equal. Equality is the one that
the items are compared by, so that of several equal items the first to arrive stays and the others leave
no trace.
-/

namespace ForwardChaining

/-- Items in order of first arrival, no two of them equal. -/
structure Roster (α : Type) [BEq α] where
  items : List α
  distinct : items.Pairwise fun a b => (a == b) = false

namespace Roster

variable {α : Type} [BEq α]

/-- The roster without items. -/
def empty : Roster α := { items := [], distinct := List.Pairwise.nil }

instance : Inhabited (Roster α) := ⟨empty⟩

/-- Whether an item equal to `a` is there. -/
def contains (r : Roster α) (a : α) : Bool := r.items.any (· == a)

/-- The number of items. -/
def size (r : Roster α) : Nat := r.items.length

/-- An item that is new goes to the end; one that is there already changes nothing. -/
def insert (r : Roster α) (a : α) : Roster α :=
  if h : r.contains a then r
  else
    { items := r.items ++ [a]
      distinct := by
        simp only [contains, List.any_eq_true, not_exists, not_and, Bool.not_eq_true] at h
        refine List.pairwise_append.2 ⟨r.distinct, List.pairwise_singleton .., ?_⟩
        intro b hb c hc
        rw [List.mem_singleton.1 hc]
        exact h b hb }

/-- The roster with the items of a list added in turn. -/
def insertAll (r : Roster α) (xs : List α) : Roster α := xs.foldl insert r

/-- The items of a list, each at its first arrival. -/
def ofList (xs : List α) : Roster α := insertAll empty xs

theorem items_insert (r : Roster α) (a : α) :
    (r.insert a).items = if r.contains a then r.items else r.items ++ [a] := by
  unfold insert
  split <;> rfl

theorem mem_of_mem_insert {r : Roster α} {a b : α} (h : b ∈ (r.insert a).items) :
    b ∈ r.items ∨ b = a := by
  rw [items_insert] at h
  split at h
  · exact .inl h
  · simpa using h

end Roster

end ForwardChaining
