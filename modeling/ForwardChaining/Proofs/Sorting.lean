import Mathlib.Data.String.Basic
import ForwardChaining.Sorting

/-!
# Sorting keeps the items and orders them

`sortBy` inserts the items one by one.  An insertion adds the one item and nothing else, and into a list in
ascending order it puts the item where the order is kept.
-/

namespace ForwardChaining

variable {α : Type}

theorem insertByKey_perm (x : String × α) (ys : List (String × α)) :
    (insertByKey x ys).Perm (x :: ys) := by
  induction ys with
  | nil => exact .refl _
  | cons y ys ih =>
    rw [insertByKey]
    split
    · exact (ih.cons y).trans (.swap x y ys)
    · exact .refl _

theorem insertByKey_pairwise (x : String × α) {ys : List (String × α)}
    (h : ys.Pairwise fun a b => a.1 ≤ b.1) : (insertByKey x ys).Pairwise fun a b => a.1 ≤ b.1 := by
  induction ys with
  | nil => exact List.pairwise_singleton _ _
  | cons y ys ih =>
    obtain ⟨hy, hys⟩ := List.pairwise_cons.mp h
    rw [insertByKey]
    split
    · next hlt =>
      refine List.pairwise_cons.mpr ⟨fun z hz => ?_, ih hys⟩
      rcases List.mem_cons.mp ((insertByKey_perm x ys).mem_iff.mp hz) with rfl | hz
      · exact le_of_lt hlt
      · exact hy z hz
    · next hge =>
      have hxy : x.1 ≤ y.1 := not_lt.mp hge
      refine List.pairwise_cons.mpr ⟨fun z hz => ?_, h⟩
      rcases List.mem_cons.mp hz with rfl | hz
      · exact hxy
      · exact le_trans hxy (hy z hz)

theorem foldr_insertByKey_perm (xs : List (String × α)) : (xs.foldr insertByKey []).Perm xs := by
  induction xs with
  | nil => exact .refl _
  | cons x xs ih => exact (insertByKey_perm x _).trans (ih.cons x)

theorem foldr_insertByKey_pairwise (xs : List (String × α)) :
    (xs.foldr insertByKey []).Pairwise fun a b => a.1 ≤ b.1 := by
  induction xs with
  | nil => exact .nil
  | cons x xs ih => exact insertByKey_pairwise x ih

/-- **Sorting permutes the items.** -/
theorem sortBy_perm (key : α → String) (xs : List α) : (sortBy key xs).Perm xs := by
  have h := (foldr_insertByKey_perm (xs.map fun x => (key x, x))).map Prod.snd
  rw [List.map_map] at h
  have hid : xs.map (Prod.snd ∘ fun x => (key x, x)) = xs := List.map_id' xs
  rw [hid] at h
  exact h

/-- **The keys of sorted items ascend.** -/
theorem sortBy_pairwise (key : α → String) (xs : List α) :
    (sortBy key xs).Pairwise fun a b => key a ≤ key b := by
  have hkey : ∀ p ∈ (xs.map fun x => (key x, x)).foldr insertByKey [], p.1 = key p.2 := by
    intro p hp
    obtain ⟨x, _, rfl⟩ := List.mem_map.mp ((foldr_insertByKey_perm _).mem_iff.mp hp)
    rfl
  refine List.pairwise_map.mpr ((foldr_insertByKey_pairwise _).imp_of_mem fun ha hb hab => ?_)
  rw [← hkey _ ha, ← hkey _ hb]
  exact hab

end ForwardChaining
