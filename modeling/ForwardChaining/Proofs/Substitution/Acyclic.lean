import Mathlib.Data.List.Nodup
import Mathlib.Data.List.Perm.Subperm
import Mathlib.Data.Nat.Find
import Mathlib.Logic.Relation
import ForwardChaining.Proofs.Term
import ForwardChaining.Substitution

/-!
# Acyclic bindings

A bound variable leads to the variables of the term that it is bound to.  A substitution is acyclic if
no variable leads back to itself.  As there are finitely many bindings, every way along them then comes to
an end, and by the pigeonhole principle it does so within as many steps as there are bindings
(`Acyclic.endsWithin`).  The bound in the definitions of `walk`, `apply` and `occurs` rests on this.

Two consequences carry the proofs that follow.  `Acyclic.induction` goes down a term and through the
bindings of its variables.  `acyclic_iff_exists_rank` says that the variables can be ranked so that each
one leads only to variables of lower rank.
-/

namespace ForwardChaining.Substitution

open Relation (TransGen ReflTransGen)

variable {S : Substitution}

/-- `v` is bound to a term in which `w` occurs. -/
def Leads (S : Substitution) (v w : String) : Prop := ∃ t, S.find? v = some t ∧ w ∈ t.vars

/-- No variable reaches itself through bindings. -/
def Acyclic (S : Substitution) : Prop := ∀ v, ¬ TransGen S.Leads v v

/-- Some variable of `t` is `v` or reaches it through bindings. -/
def Reaches (S : Substitution) (t : Term) (v : String) : Prop :=
  ∃ w ∈ t.vars, ReflTransGen S.Leads w v

/-! ### Looking up bindings -/

@[simp] theorem find?_empty (v : String) : empty.find? v = none := rfl

theorem find?_mk_cons (v w : String) (t : Term) (bs : List (String × Term)) :
    find? ⟨(v, t) :: bs⟩ w = if w = v then some t else find? ⟨bs⟩ w := by
  rw [find?, List.lookup_cons]
  by_cases h : w = v
  · rw [if_pos h, h, beq_self_eq_true]
  · rw [if_neg h, beq_false_of_ne h]
    rfl

theorem find?_insert (S : Substitution) (v w : String) (t : Term) :
    (S.insert v t).find? w = if w = v then some t else S.find? w := by
  obtain ⟨bs⟩ := S
  rw [insert, find?_mk_cons]
  by_cases h : w = v
  · rw [if_pos h, if_pos h]
  · rw [if_neg h, if_neg h]
    induction bs with
    | nil => rfl
    | cons b bs ih =>
      obtain ⟨u, s⟩ := b
      rw [find?_mk_cons]
      by_cases hu : u = v
      · rw [List.filter_cons_of_neg (by simpa using hu), ih, if_neg (hu ▸ h)]
      · rw [List.filter_cons_of_pos (by simpa using hu), find?_mk_cons, ih]

theorem mem_bindings_of_find? {v : String} {t : Term} (h : S.find? v = some t) :
    (v, t) ∈ S.bindings := by
  obtain ⟨l₁, l₂, hl, _⟩ := List.lookup_eq_some_iff.mp h
  rw [hl]
  simp

theorem find?_eq_none_iff {v : String} : S.find? v = none ↔ v ∉ S.bindings.map Prod.fst := by
  rw [find?, List.lookup_eq_none_iff, List.mem_map]
  constructor
  · rintro h ⟨b, hb, rfl⟩
    simpa using h b hb
  · intro h b hb
    exact bne_iff_ne.mpr fun hv => h ⟨b, hb, hv.symm⟩

/-! ### Ways come to an end -/

/-- Every way from `v` along the bindings passes at most `n` of them. -/
def EndsWithin (S : Substitution) : Nat → String → Prop
  | 0, v => S.find? v = none
  | n + 1, v => ∀ w, S.Leads v w → S.EndsWithin n w

theorem Acyclic.endsWithin_of_way (hS : S.Acyclic) (n : Nat) :
    ∀ (v : String) (way : List String), way.Nodup → way ⊆ S.bindings.map Prod.fst →
      (∀ u ∈ way, TransGen S.Leads u v) → S.bindings.length ≤ way.length + n →
      S.EndsWithin n v := by
  have hlength : ∀ l : List String, l.Nodup → l ⊆ S.bindings.map Prod.fst →
      l.length ≤ S.bindings.length := by
    intro l hl hsub
    have := (List.subperm_of_subset hl hsub).length_le
    rwa [List.length_map] at this
  induction n with
  | zero =>
    intro v way hnd hsub hway hlen
    by_contra hv
    have hbound : v ∈ S.bindings.map Prod.fst := not_not.mp (mt find?_eq_none_iff.mpr hv)
    have hnew : v ∉ way := fun h => hS v (hway v h)
    have := hlength (v :: way) (List.nodup_cons.mpr ⟨hnew, hnd⟩)
      (List.cons_subset.mpr ⟨hbound, hsub⟩)
    rw [List.length_cons] at this
    omega
  | succ n ih =>
    intro v way hnd hsub hway hlen w hvw
    obtain ⟨t, ht, _⟩ := id hvw
    have hbound : v ∈ S.bindings.map Prod.fst := List.mem_map_of_mem (mem_bindings_of_find? ht)
    have hnew : v ∉ way := fun h => hS v (hway v h)
    refine ih w (v :: way) (List.nodup_cons.mpr ⟨hnew, hnd⟩)
      (List.cons_subset.mpr ⟨hbound, hsub⟩) ?_ (by rw [List.length_cons]; omega)
    intro u hu
    rcases List.mem_cons.mp hu with rfl | hu
    · exact .single hvw
    · exact (hway u hu).tail hvw

/-- **Pigeonhole.**  No way along acyclic bindings is longer than the number of bindings. -/
theorem Acyclic.endsWithin (hS : S.Acyclic) (v : String) : S.EndsWithin S.bindings.length v :=
  hS.endsWithin_of_way _ v [] List.nodup_nil (List.nil_subset _)
    (fun _ h => absurd h List.not_mem_nil) (Nat.le_add_left _ _)

/-- **Induction along bindings.**  What holds of unbound variables and constants, of a bound variable if it
holds of the term that it is bound to, and of a compound term if it holds of its arguments, holds of
every term. -/
theorem Acyclic.induction (hS : S.Acyclic) {P : Term → Prop}
    (unbound : ∀ v, S.find? v = none → P (.var v))
    (bound : ∀ v t, S.find? v = some t → P t → P (.var v))
    (const : ∀ c, P (.const c))
    (app : ∀ f args, (∀ t ∈ args, P t) → P (.app f args)) (t : Term) : P t := by
  have hP : ∀ n t, (∀ v ∈ t.vars, S.EndsWithin n v) → P t := by
    intro n
    induction n with
    | zero =>
      intro t ht
      induction t with
      | var v => exact unbound v (ht v (by simp))
      | const c => exact const c
      | app f args ih =>
        exact app f args fun t h => ih t h fun v hv => ht v (Term.mem_vars_app.mpr ⟨t, h, hv⟩)
    | succ n ihn =>
      intro t ht
      induction t with
      | var v =>
        cases hv : S.find? v with
        | none => exact unbound v hv
        | some u => exact bound v u hv (ihn u fun w hw => ht v (by simp) w ⟨u, hv, hw⟩)
      | const c => exact const c
      | app f args ih =>
        exact app f args fun t h => ih t h fun v hv => ht v (Term.mem_vars_app.mpr ⟨t, h, hv⟩)
  exact hP _ t fun v _ => hS.endsWithin v

/-! ### Ranks -/

theorem lt_of_transGen_leads {rank : String → Nat} (h : ∀ v w, S.Leads v w → rank w < rank v)
    {v w : String} (hvw : TransGen S.Leads v w) : rank w < rank v := by
  induction hvw with
  | single hl => exact h _ _ hl
  | tail _ hl ih => exact Nat.lt_trans (h _ _ hl) ih

theorem acyclic_of_rank (rank : String → Nat) (h : ∀ v w, S.Leads v w → rank w < rank v) :
    S.Acyclic := fun _ hv => Nat.lt_irrefl _ (lt_of_transGen_leads h hv)

/-- **Acyclic bindings can be ranked**: every variable leads only to variables of lower rank. -/
theorem acyclic_iff_exists_rank :
    S.Acyclic ↔ ∃ rank : String → Nat, ∀ v w, S.Leads v w → rank w < rank v := by
  classical
  constructor
  · intro hS
    have hends : ∀ v, ∃ n, S.EndsWithin n v := fun v => ⟨_, hS.endsWithin v⟩
    refine ⟨fun v => Nat.find (hends v), fun v w hvw => ?_⟩
    show Nat.find (hends w) < Nat.find (hends v)
    have hv := Nat.find_spec (hends v)
    cases hn : Nat.find (hends v) with
    | zero =>
      rw [hn] at hv
      obtain ⟨t, ht, _⟩ := hvw
      exact absurd (ht.symm.trans hv) (by simp)
    | succ n =>
      rw [hn] at hv
      exact Nat.lt_succ_of_le (Nat.find_min' (hends w) (hv w hvw))
  · rintro ⟨rank, h⟩
    exact acyclic_of_rank rank h

theorem acyclic_empty : empty.Acyclic :=
  acyclic_of_rank (fun _ => 0) fun v w ⟨t, ht, _⟩ => absurd ht (by simp)

theorem exists_bound (rank : String → Nat) (vs : List String) : ∃ n, ∀ v ∈ vs, rank v < n := by
  induction vs with
  | nil => exact ⟨0, fun _ h => absurd h List.not_mem_nil⟩
  | cons v vs ih =>
    obtain ⟨n, hn⟩ := ih
    refine ⟨max n (rank v + 1), fun w hw => ?_⟩
    rcases List.mem_cons.mp hw with rfl | hw
    · omega
    · have := hn w hw
      omega

/-- **A binding that closes no way keeps the substitution acyclic.**  The variables from which `v` is
reached move above all variables of `t`. -/
theorem Acyclic.insert (hS : S.Acyclic) {v : String} {t : Term} (hvt : ¬ S.Reaches t v) :
    (S.insert v t).Acyclic := by
  classical
  obtain ⟨rank, hrank⟩ := acyclic_iff_exists_rank.mp hS
  obtain ⟨n, hn⟩ := exists_bound rank t.vars
  refine acyclic_of_rank (fun u => if ReflTransGen S.Leads u v then rank u + n else rank u) ?_
  rintro u w ⟨s, hs, hw⟩
  rw [find?_insert] at hs
  by_cases hu : u = v
  · subst hu
    rw [if_pos rfl, Option.some.injEq] at hs
    subst hs
    have hwu : ¬ ReflTransGen S.Leads w u := fun h => hvt ⟨w, hw, h⟩
    have := hn w hw
    simp only [if_neg hwu, if_pos (ReflTransGen.refl (a := u))]
    omega
  · rw [if_neg hu] at hs
    have huw : S.Leads u w := ⟨s, hs, hw⟩
    have := hrank u w huw
    by_cases hwv : ReflTransGen S.Leads w v
    · simp only [if_pos hwv, if_pos (hwv.head huw)]
      omega
    · simp only [if_neg hwv]
      split <;> omega

end ForwardChaining.Substitution
