import Mathlib.Tactic.Common
import ForwardChaining.Datum

/-!
# Plain data whose keys are distinct

A map of plain data gives every key once, at whatever depth it stands, `Datum.KeysDistinct`.  Entries put into a map
one by one replace those whose keys are there, in their places, and the others come behind, in order: `foldl_put` says
so in one equation, of which entries put into an empty map are the case where nothing is replaced.  Two data are the
same if they are held in the same way, which can be decided.
-/

namespace ForwardChaining.Datum

variable {base extra : List (CodeText × Datum)} {key : CodeText} {d : Datum}

/-- Every map in a datum gives every key once. -/
inductive KeysDistinct : Datum → Prop where
  | scalar (v : Scalar) : KeysDistinct (.scalar v)
  | list {items : List Datum} (h : ∀ d ∈ items, KeysDistinct d) : KeysDistinct (.list items)
  | map {entries : List (CodeText × Datum)} (hkeys : (entries.map Prod.fst).Nodup)
      (h : ∀ e ∈ entries, KeysDistinct e.2) : KeysDistinct (.map entries)

@[simp] theorem keysDistinct_scalar (v : Scalar) : (Datum.scalar v).KeysDistinct := .scalar v

@[simp] theorem keysDistinct_list {items : List Datum} :
    (Datum.list items).KeysDistinct ↔ ∀ d ∈ items, d.KeysDistinct := by
  constructor
  · rintro (_ | h)
    exact h
  · exact .list

@[simp] theorem keysDistinct_map {entries : List (CodeText × Datum)} :
    (Datum.map entries).KeysDistinct ↔ (entries.map Prod.fst).Nodup ∧ ∀ e ∈ entries, e.2.KeysDistinct := by
  constructor
  · rintro (_ | _ | ⟨hkeys, h⟩)
    exact ⟨hkeys, h⟩
  · exact fun ⟨hkeys, h⟩ => .map hkeys h

mutual
/-- What holds of scalars, and of lists and maps if it holds of what they hold, holds of every datum. -/
@[elab_as_elim]
theorem induction {motive : Datum → Prop} (scalar : ∀ v, motive (.scalar v))
    (list : ∀ items, (∀ d ∈ items, motive d) → motive (.list items))
    (map : ∀ entries : List (CodeText × Datum), (∀ e ∈ entries, motive e.2) → motive (.map entries)) :
    ∀ d, motive d
  | .scalar v => scalar v
  | .list items => list items (induction_items scalar list map items)
  | .map entries => map entries (induction_entries scalar list map entries)

theorem induction_items {motive : Datum → Prop} (scalar : ∀ v, motive (.scalar v))
    (list : ∀ items, (∀ d ∈ items, motive d) → motive (.list items))
    (map : ∀ entries : List (CodeText × Datum), (∀ e ∈ entries, motive e.2) → motive (.map entries)) :
    ∀ items : List Datum, ∀ d ∈ items, motive d
  | [], _, h => nomatch h
  | d :: ds, e, h => (List.mem_cons.1 h).elim (fun heq => heq ▸ induction scalar list map d)
      (induction_items scalar list map ds e)

theorem induction_entries {motive : Datum → Prop} (scalar : ∀ v, motive (.scalar v))
    (list : ∀ items, (∀ d ∈ items, motive d) → motive (.list items))
    (map : ∀ entries : List (CodeText × Datum), (∀ e ∈ entries, motive e.2) → motive (.map entries)) :
    ∀ entries : List (CodeText × Datum), ∀ e ∈ entries, motive e.2
  | [], _, h => nomatch h
  | (_, d) :: rest, e, h => (List.mem_cons.1 h).elim (fun heq => heq ▸ induction scalar list map d)
      (induction_entries scalar list map rest e)
end

/-! ### Deciding whether two data are the same -/

deriving instance DecidableEq for Scalar

mutual
/-- Whether two data are the same, part by part. -/
def decideEq : (a b : Datum) → Decidable (a = b)
  | .scalar v, .scalar w => decidable_of_iff (v = w) (by simp)
  | .list xs, .list ys => @decidable_of_iff _ (xs = ys) (by simp) (decideEqItems xs ys)
  | .map xs, .map ys => @decidable_of_iff _ (xs = ys) (by simp) (decideEqEntries xs ys)
  | .scalar _, .list _ | .scalar _, .map _ | .list _, .scalar _ | .list _, .map _ | .map _, .scalar _
  | .map _, .list _ => isFalse nofun

/-- Whether two lists of data are the same. -/
def decideEqItems : (xs ys : List Datum) → Decidable (xs = ys)
  | [], [] => isTrue rfl
  | [], _ :: _ | _ :: _, [] => isFalse nofun
  | x :: xs, y :: ys =>
    have := decideEq x y
    have := decideEqItems xs ys
    decidable_of_iff (x = y ∧ xs = ys) (by simp)

/-- Whether the entries of two maps are the same. -/
def decideEqEntries : (xs ys : List (CodeText × Datum)) → Decidable (xs = ys)
  | [], [] => isTrue rfl
  | [], _ :: _ | _ :: _, [] => isFalse nofun
  | (key, x) :: xs, (key', y) :: ys =>
    have := decideEq x y
    have := decideEqEntries xs ys
    decidable_of_iff ((key = key' ∧ x = y) ∧ xs = ys) (by simp)
end

instance : DecidableEq Datum := decideEq

/-! ### Putting entries -/

theorem map_fst_replace (base : List (CodeText × Datum)) (key : CodeText) (d : Datum) :
    (base.map fun e => if e.1 = key then (key, d) else e).map Prod.fst = base.map Prod.fst := by
  rw [List.map_map]
  refine List.map_congr_left fun e _ => ?_
  by_cases h : e.1 = key <;> simp [h]

theorem put_of_mem (h : key ∈ base.map Prod.fst) :
    put base key d = base.map fun e => if e.1 = key then (key, d) else e :=
  if_pos (by simpa using h)

theorem put_of_notMem (h : key ∉ base.map Prod.fst) : put base key d = base ++ [(key, d)] :=
  if_neg (by simpa using h)

/-- **Entries put into a map replace those whose keys are there, and the others come behind.** -/
theorem foldl_put (hkeys : (extra.map Prod.fst).Nodup) (base : List (CodeText × Datum)) :
    extra.foldl (fun found e => put found e.1 e.2) base =
      base.map (fun e => (e.1, (extra.lookup e.1).getD e.2)) ++ extra.filter fun e => e.1 ∉ base.map Prod.fst := by
  -- the entries are put one by one, so the map that they are put into changes along the induction; its keys tell what
  -- becomes of the later ones, which have other keys than the first
  induction extra generalizing base with
  | nil => simp
  | cons e extra ih =>
    obtain ⟨key, d⟩ := e
    obtain ⟨hkey, hkeys⟩ := List.nodup_cons.1 hkeys
    have hnew : ∀ e ∈ extra, e.1 ≠ key := fun e he h => hkey (List.mem_map.2 ⟨e, he, h⟩)
    have hnone : extra.lookup key = none :=
      List.lookup_eq_none_iff.2 fun e he => bne_iff_ne.2 (hnew e he).symm
    have hlookup {k : CodeText} (h : k ≠ key) : ((key, d) :: extra).lookup k = extra.lookup k := by
      rw [List.lookup_cons, beq_false_of_ne h]
    rw [List.foldl_cons, ih hkeys]
    by_cases hmem : key ∈ base.map Prod.fst
    · rw [put_of_mem hmem, map_fst_replace, List.filter_cons_of_neg (by simpa using hmem), List.map_map]
      congr 1
      refine List.map_congr_left fun e _ => ?_
      by_cases h : e.1 = key
      · simp [h, hnone]
      · simp [h, hlookup h]
    · have hold : ∀ e ∈ base, e.1 ≠ key := fun e he h => hmem (List.mem_map.2 ⟨e, he, h⟩)
      rw [put_of_notMem hmem, List.filter_cons_of_pos (by simpa using hmem), List.map_append, List.append_assoc]
      congr 1
      · exact List.map_congr_left fun e he => by rw [hlookup (hold e he)]
      · simp only [List.map_cons, List.map_nil, hnone, Option.getD_none, List.singleton_append, List.map_append]
        congr 1
        refine List.filter_congr fun e he => ?_
        simp [hnew e he]

end ForwardChaining.Datum
