import Mathlib.Data.List.Basic
import ForwardChaining.Roster

/-!
# Rosters as sets

What a roster says of an item, `contains`, does not tell equal items apart, so that a roster is a finite set
of items up to equality.  Rosters are compared as such sets: `r ≤ s` if everything in `r` is in `s`, and
`r ≈ s` if the same is in both.

* `contains_insertAll`: adding items is a union.
* `size_le_size`: a roster in another has at most as many items, by pairing its items with theirs.
* `items_insertAll`: items that are new and distinct are added as they stand, at the end.
* `items_ofList`: the items of a list are its items without the repetitions.
-/

namespace ForwardChaining.Roster

variable {α : Type} [BEq α] {r s t : Roster α} {a b : α} {xs : List α}

/-- Everything in the one is in the other. -/
instance : LE (Roster α) := ⟨fun r s => ∀ a, r.contains a = true → s.contains a = true⟩

/-- The same is in both. -/
instance : Setoid (Roster α) where
  r r s := ∀ a, r.contains a = s.contains a
  iseqv := ⟨fun _ _ => rfl, fun h a => (h a).symm, fun h₁ h₂ a => (h₁ a).trans (h₂ a)⟩

theorem le_refl (r : Roster α) : r ≤ r := fun _ h => h

theorem le_trans (h₁ : r ≤ s) (h₂ : s ≤ t) : r ≤ t := fun a h => h₂ a (h₁ a h)

theorem le_of_equiv (h : r ≈ s) : r ≤ s := fun a ha => h a ▸ ha

theorem equiv_of_le (h₁ : r ≤ s) (h₂ : s ≤ r) : r ≈ s :=
  fun a => Bool.eq_iff_iff.mpr ⟨h₁ a, h₂ a⟩

theorem contains_iff : r.contains a = true ↔ ∃ b ∈ r.items, (b == a) = true := List.any_eq_true

theorem contains_eq_false_iff : r.contains a = false ↔ ∀ b ∈ r.items, (b == a) = false := by
  rw [contains, List.any_eq_false]
  simp only [Bool.not_eq_true]

@[simp] theorem contains_empty (a : α) : (empty : Roster α).contains a = false := rfl

theorem insertAll_cons (x : α) : r.insertAll (x :: xs) = (r.insert x).insertAll xs := rfl

theorem insertAll_append (xs ys : List α) : r.insertAll (xs ++ ys) = (r.insertAll xs).insertAll ys :=
  List.foldl_append

theorem mem_of_mem_insertAll (h : a ∈ (r.insertAll xs).items) : a ∈ r.items ∨ a ∈ xs := by
  induction xs generalizing r with
  | nil => exact .inl h
  | cons x xs ih =>
    rcases ih h with h | h
    · rcases mem_of_mem_insert h with h | rfl
      · exact .inl h
      · exact .inr (by simp)
    · exact .inr (List.mem_cons_of_mem _ h)

theorem mem_of_mem_ofList (h : a ∈ (ofList xs).items) : a ∈ xs :=
  (mem_of_mem_insertAll h).resolve_left List.not_mem_nil

/-- **New and distinct items go to the end as they stand.** -/
theorem items_insertAll (hnew : ∀ x ∈ xs, r.contains x = false)
    (hxs : xs.Pairwise fun a b => (a == b) = false) :
    (r.insertAll xs).items = r.items ++ xs := by
  induction xs generalizing r with
  | nil => exact (List.append_nil _).symm
  | cons x xs ih =>
    obtain ⟨hx, hxs⟩ := List.pairwise_cons.mp hxs
    have hins : (r.insert x).items = r.items ++ [x] := by
      rw [items_insert, hnew x (by simp)]
      rfl
    rw [insertAll_cons, ih ?_ hxs, hins, List.append_assoc, List.singleton_append]
    intro y hy
    rw [contains_eq_false_iff, hins]
    intro z hz
    rcases List.mem_append.mp hz with hz | hz
    · exact contains_eq_false_iff.mp (hnew y (List.mem_cons_of_mem _ hy)) z hz
    · rw [List.mem_singleton.mp hz]
      exact hx y hy

theorem ofList_items (r : Roster α) : ofList r.items = r := by
  have hitems : (ofList r.items).items = r.items := items_insertAll (fun _ _ => rfl) r.distinct
  generalize ofList r.items = s at hitems
  obtain ⟨items, _⟩ := r
  obtain ⟨items', _⟩ := s
  subst hitems
  rfl

theorem insertAll_eq_ofList (r : Roster α) (xs : List α) : r.insertAll xs = ofList (r.items ++ xs) := by
  rw [ofList, insertAll_append, ← ofList, ofList_items]

section Equivalence

variable [EquivBEq α]

theorem contains_of_mem (h : a ∈ r.items) : r.contains a = true :=
  contains_iff.mpr ⟨a, h, BEq.refl a⟩

theorem contains_congr (r : Roster α) (h : (a == b) = true) : r.contains a = r.contains b := by
  rw [Bool.eq_iff_iff, contains_iff, contains_iff]
  constructor
  · rintro ⟨c, hc, hca⟩
    exact ⟨c, hc, BEq.trans hca h⟩
  · rintro ⟨c, hc, hcb⟩
    exact ⟨c, hc, BEq.trans hcb (BEq.symm h)⟩

theorem contains_insert : (r.insert a).contains b = true ↔ r.contains b = true ∨ (a == b) = true := by
  by_cases ha : r.contains a = true
  · rw [contains, items_insert, if_pos ha]
    refine ⟨.inl, fun h => h.elim id fun hab => ?_⟩
    exact (r.contains_congr hab).symm.trans ha
  · rw [contains, items_insert, if_neg ha, List.any_append, Bool.or_eq_true, List.any_cons,
      List.any_nil, Bool.or_false]
    rfl

/-- **Adding items is a union.** -/
theorem contains_insertAll :
    (r.insertAll xs).contains a = true ↔ r.contains a = true ∨ ∃ x ∈ xs, (x == a) = true := by
  induction xs generalizing r with
  | nil => simp [insertAll]
  | cons x xs ih => rw [insertAll_cons, ih, contains_insert, or_assoc, List.exists_mem_cons_iff]

theorem items_insertAll_eq (r : Roster α) (xs : List α) :
    (r.insertAll xs).items = r.items ++ (xs.filter fun x => !r.contains x).eraseDups := by
  induction xs generalizing r with
  | nil => exact (List.append_nil _).symm
  | cons x xs ih =>
    rw [insertAll_cons, ih, items_insert]
    by_cases hx : r.contains x = true
    · have hsame : r.insert x = r := by rw [insert, dif_pos hx]
      rw [if_pos hx, hsame, List.filter_cons_of_neg (by simp [hx])]
    · have hnew : xs.filter (fun y => !(r.insert x).contains y) =
          (xs.filter fun y => !r.contains y).filter fun y => !y == x := by
        rw [List.filter_filter]
        refine List.filter_congr fun y _ => ?_
        rw [Bool.eq_iff_iff, Bool.and_eq_true, Bool.not_eq_true', Bool.not_eq_true', Bool.not_eq_true',
          ← Bool.not_eq_true, contains_insert, not_or, Bool.not_eq_true, Bool.not_eq_true, and_comm, BEq.comm]
      rw [if_neg hx, List.filter_cons_of_pos (by simp [hx]), List.eraseDups_cons, hnew, List.append_assoc,
        List.singleton_append]

/-- **The roster of a list has its items without the repetitions.** -/
theorem items_ofList (xs : List α) : (ofList xs).items = xs.eraseDups := by
  have hnew : xs.filter (fun x => !(empty : Roster α).contains x) = xs := List.filter_eq_self.mpr fun _ _ => rfl
  rw [ofList, items_insertAll_eq, hnew]
  rfl

theorem contains_ofList : (ofList xs).contains a = true ↔ ∃ x ∈ xs, (x == a) = true := by
  rw [ofList, contains_insertAll, contains_empty]
  simp

theorem le_insertAll (r : Roster α) (xs : List α) : r ≤ r.insertAll xs :=
  fun _ h => contains_insertAll.mpr (.inl h)

theorem le_of_forall_mem (h : ∀ a ∈ r.items, s.contains a = true) : r ≤ s := by
  intro a ha
  obtain ⟨b, hb, hba⟩ := contains_iff.mp ha
  exact (s.contains_congr hba).symm.trans (h b hb)

theorem equiv_of_perm (h : r.items.Perm s.items) : r ≈ s :=
  equiv_of_le (le_of_forall_mem fun _ ha => contains_of_mem (h.mem_iff.mp ha))
    (le_of_forall_mem fun _ ha => contains_of_mem (h.mem_iff.mpr ha))

theorem exists_mem_of_le (h : r ≤ s) (ha : a ∈ r.items) : ∃ b ∈ s.items, (a == b) = true := by
  obtain ⟨b, hb, hba⟩ := contains_iff.mp (h a (contains_of_mem ha))
  exact ⟨b, hb, BEq.symm hba⟩

theorem exists_mem_filter_not_contains :
    (∃ b ∈ r.items.filter fun b => !s.contains b, (b == a) = true) ↔
      r.contains a = true ∧ s.contains a = false := by
  constructor
  · rintro ⟨b, hb, hba⟩
    obtain ⟨hb, hnew⟩ := List.mem_filter.mp hb
    rw [Bool.not_eq_true', s.contains_congr hba] at hnew
    exact ⟨contains_iff.mpr ⟨b, hb, hba⟩, hnew⟩
  · rintro ⟨ha, hnew⟩
    obtain ⟨b, hb, hba⟩ := contains_iff.mp ha
    rw [← s.contains_congr hba, ← Bool.not_eq_true'] at hnew
    exact ⟨b, List.mem_filter.mpr ⟨hb, hnew⟩, hba⟩

theorem filter_not_contains (h : s.items = r.items ++ xs) :
    s.items.filter (fun a => !r.contains a) = xs := by
  have hdistinct := s.distinct
  rw [h, List.pairwise_append] at hdistinct
  obtain ⟨_, _, hnew⟩ := hdistinct
  rw [h, List.filter_append, List.filter_eq_nil_iff.mpr, List.filter_eq_self.mpr, List.nil_append]
  · intro a ha
    rw [Bool.not_eq_true']
    exact contains_eq_false_iff.mpr fun b hb => hnew b hb a ha
  · intro a ha
    rw [contains_of_mem ha]
    decide

theorem length_le_length {ys : List α} (hxs : xs.Pairwise fun a b => (a == b) = false)
    (h : ∀ x ∈ xs, ∃ y ∈ ys, (x == y) = true) : xs.length ≤ ys.length := by
  induction xs generalizing ys with
  | nil => exact Nat.zero_le _
  | cons x xs ih =>
    obtain ⟨hx, hxs⟩ := List.pairwise_cons.mp hxs
    obtain ⟨y, hy, hxy⟩ := h x (by simp)
    obtain ⟨ys₁, ys₂, rfl⟩ := List.append_of_mem hy
    -- The partner of `x` is no partner of a later item, and may be taken out.
    have hrest : xs.length ≤ (ys₁ ++ ys₂).length := by
      refine ih hxs fun z hz => ?_
      obtain ⟨w, hw, hzw⟩ := h z (List.mem_cons_of_mem _ hz)
      refine ⟨w, ?_, hzw⟩
      rw [List.mem_append, List.mem_cons] at hw
      rcases hw with hw | rfl | hw
      · exact List.mem_append_left _ hw
      · have hxz : (x == z) = true := BEq.trans hxy (BEq.symm hzw)
        rw [hx z hz] at hxz
        exact absurd hxz (by decide)
      · exact List.mem_append_right _ hw
    rw [List.length_append] at hrest
    rw [List.length_append, List.length_cons, List.length_cons]
    omega

/-- **A roster in another is no larger.** -/
theorem size_le_size (h : r ≤ s) : r.size ≤ s.size :=
  length_le_length r.distinct fun _ ha => exists_mem_of_le h ha

theorem size_eq_size (h : r ≈ s) : r.size = s.size :=
  Nat.le_antisymm (size_le_size (le_of_equiv h)) (size_le_size (le_of_equiv (Setoid.symm h)))

theorem perm_of_equiv (h : r ≈ s)
    (hr : ∀ a ∈ r.items, ∀ b, (a == b) = true → a = b) (hs : ∀ a ∈ s.items, ∀ b, (a == b) = true → a = b) :
    r.items.Perm s.items := by
  have hnodup : ∀ t : Roster α, t.items.Nodup := by
    refine fun t => t.distinct.imp ?_
    rintro a _ hab rfl
    rw [BEq.refl a] at hab
    cases hab
  refine (List.perm_ext_iff_of_nodup (hnodup r) (hnodup s)).mpr fun a => ⟨fun ha => ?_, fun ha => ?_⟩
  · obtain ⟨b, hb, hab⟩ := exists_mem_of_le (le_of_equiv h) ha
    exact hr a ha b hab ▸ hb
  · obtain ⟨b, hb, hab⟩ := exists_mem_of_le (le_of_equiv (Setoid.symm h)) ha
    exact hs a ha b hab ▸ hb

end Equivalence

end ForwardChaining.Roster
