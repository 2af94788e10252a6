/-!
# Sorting by a text

Facts are listed by their displays, compared character by character by code point. Those with the same
display keep the order in which they stood.
-/

namespace ForwardChaining

/-- Put an item with its key before the first one whose key is not smaller. -/
def insertByKey {α : Type} (x : String × α) : List (String × α) → List (String × α)
  | [] => [x]
  | y :: ys => if y.1 < x.1 then y :: insertByKey x ys else x :: y :: ys

/-- The items in the order of their keys. -/
def sortBy {α : Type} (key : α → String) (xs : List α) : List α :=
  ((xs.map fun x => (key x, x)).foldr insertByKey []).map (·.2)

/-- Texts in ascending order. -/
def sorted (xs : List String) : List String := sortBy id xs

end ForwardChaining
