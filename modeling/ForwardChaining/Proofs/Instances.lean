import ForwardChaining.Proofs.Roster
import ForwardChaining.Proofs.Saturation.Termination

/-!
# The instances of a rule, one for each choice of facts

The search chooses a fact for every antecedent.  `branches` is the search once more, with each completed
branch beside the facts that it has chosen.  Forgetting the choices gives back the instances of the rule
(`map_snd_branches`), the choices that occur are those that can be made at all (`exists_mem_branches_iff`),
and no two branches make the same choice (`branches_pairwise`).

So the instances of a rule are in one-to-one correspondence with the choices of facts that some solution of
the bindings at the start unifies with the antecedents: `instances_exact`.  Neither the facts nor the
bindings at the start need be ground, and two choices may well give the same bindings.
-/

namespace ForwardChaining

open Substitution

variable {S S' : Substitution} {as fs facts : List Atom} {θ : String → Term}

def branches (facts : List Atom) : List Atom → Substitution → List (List Atom × Substitution)
  | [], S => [([], S)]
  | a :: rest, S => facts.flatMap fun f =>
    if (unify a.toTerm f.toTerm S).isUnified then
      (branches facts rest (unify a.toTerm f.toTerm S).bindings).map fun b => (f :: b.1, b.2)
    else []

/-! ### Branches and instances -/

/-- **The branches end with the instances**, in the order in which the search finds them. -/
theorem map_snd_branches :
    (branches facts as S).map Prod.snd = (attempts facts as S).filterMap completed? := by
  induction as generalizing S with
  | nil => rfl
  | cons a as ih =>
    rw [branches, attempts, List.map_flatMap, List.filterMap_flatMap]
    refine List.flatMap_congr fun f _ => ?_
    generalize unify a.toTerm f.toTerm S = u
    obtain ⟨verdict, T⟩ := u
    cases verdict with
    | unified => exact (List.map_map ..).trans ih
    | _ => rfl

theorem mem_branches_iff :
    (fs, S') ∈ branches facts as S ↔ (∀ f ∈ fs, f ∈ facts) ∧ Matches as fs S S' := by
  induction as generalizing S fs with
  | nil =>
    rw [branches, List.mem_singleton, Prod.mk.injEq]
    constructor
    · rintro ⟨rfl, rfl⟩
      exact ⟨fun _ h => absurd h List.not_mem_nil, .nil⟩
    · rintro ⟨_, h⟩
      cases h
      exact ⟨rfl, rfl⟩
  | cons a as ih =>
    rw [branches, List.mem_flatMap]
    constructor
    · rintro ⟨f, hf, h⟩
      split at h
      · next hok =>
        obtain ⟨⟨gs, T⟩, hb, heq⟩ := List.mem_map.mp h
        cases heq
        obtain ⟨hgs, hmatch⟩ := ih.mp hb
        exact ⟨List.forall_mem_cons.mpr ⟨hf, hgs⟩, .cons hok hmatch⟩
      · exact absurd h List.not_mem_nil
    · rintro ⟨hfs, h⟩
      cases h with
      | @cons _ f _ fs _ _ hok h =>
        obtain ⟨hf, hfs⟩ := List.forall_mem_cons.mp hfs
        refine ⟨f, hf, ?_⟩
        rw [if_pos hok]
        exact List.mem_map.mpr ⟨(fs, S'), ih.mpr ⟨hfs, h⟩, rfl⟩

/-- **No choice is made twice**, if no two of the facts are equal. -/
theorem branches_pairwise (hfacts : facts.Pairwise fun f g => ¬ f ≈ g) :
    (branches facts as S).Pairwise fun b c => ¬ List.Forall₂ (· ≈ ·) b.1 c.1 := by
  induction as generalizing S with
  | nil => exact List.pairwise_singleton _ _
  | cons a as ih =>
    rw [branches, List.pairwise_flatMap]
    constructor
    · intro f _
      split
      · refine List.pairwise_map.mpr (ih.imp fun hne heq => hne ?_)
        exact (List.forall₂_cons.mp heq).2
      · exact .nil
    · refine hfacts.imp fun hfg b hb c hc heq => hfg ?_
      -- Two branches that chose different facts for the first antecedent differ there.
      split at hb
      · split at hc
        · obtain ⟨b, _, rfl⟩ := List.mem_map.mp hb
          obtain ⟨c, _, rfl⟩ := List.mem_map.mp hc
          exact (List.forall₂_cons.mp heq).1
        · exact absurd hc List.not_mem_nil
      · exact absurd hb List.not_mem_nil

/-! ### Instances and solutions -/

def Unifies (θ : String → Term) (as fs : List Atom) : Prop :=
  List.Forall₂ (fun a f => a.bind θ ≈ f.bind θ) as fs

/-- `S'` extends `S` by a most general way to make every antecedent equal to the fact at its place. -/
structure IsInstance (S : Substitution) (as fs : List Atom) (S' : Substitution) : Prop where
  le : S ≤ S'
  acyclic : S'.Acyclic
  equal : List.Forall₂ (fun a f => S'.applyAtom a ≈ S'.applyAtom f) as fs
  mostGeneral : ∀ θ, Solves θ S → Unifies θ as fs → Solves θ S'

theorem Matches.functional (h : Matches as fs S S') {S'' : Substitution} (h' : Matches as fs S S'') :
    S' = S'' := by
  induction h with
  | nil => cases h'; rfl
  | cons _ _ ih => cases h' with
    | cons _ h' => exact ih h'

theorem Matches.isInstance (h : Matches as fs S S') (hS : S.Acyclic) : IsInstance S as fs S' where
  le := h.le hS
  acyclic := h.acyclic hS
  equal := h.apply_equiv hS
  mostGeneral := by
    intro θ hθ hunifies
    obtain ⟨S'', h', hsolves⟩ := exists_matches hS hθ hunifies
    rw [h.functional h']
    exact hsolves

theorem IsInstance.unifies (h : IsInstance S as fs S') :
    Solves (fun v => S'.apply (.var v)) S ∧ Unifies (fun v => S'.apply (.var v)) as fs := by
  refine ⟨solves_apply h.acyclic h.le, h.equal.imp fun a f haf => ?_⟩
  rw [Atom.bind_apply_var, Atom.bind_apply_var]
  exact haf

/-- **The choices that occur** are those that some solution unifies with the antecedents. -/
theorem exists_mem_branches_iff (hS : S.Acyclic) :
    (∃ S', (fs, S') ∈ branches facts as S) ↔
      (∀ f ∈ fs, f ∈ facts) ∧ ∃ θ, Solves θ S ∧ Unifies θ as fs := by
  constructor
  · rintro ⟨S', h⟩
    obtain ⟨hfs, hmatch⟩ := mem_branches_iff.mp h
    exact ⟨hfs, _, (hmatch.isInstance hS).unifies⟩
  · rintro ⟨hfs, θ, hθ, hunifies⟩
    obtain ⟨S', hmatch, _⟩ := exists_matches hS hθ hunifies
    exact ⟨S', mem_branches_iff.mpr ⟨hfs, hmatch⟩⟩

/-- `found` lists the substitutions that a search has found, each beside the choice of facts that it
belongs to. -/
structure Corresponds (as : List Atom) (facts : Roster Atom) (S : Substitution)
    (found : List (List Atom × Substitution)) : Prop where
  /-- The choices are those that some solution of `S` unifies with the antecedents. -/
  choices : ∀ fs, fs ∈ found.map Prod.fst ↔
    (∀ f ∈ fs, f ∈ facts.items) ∧ ∃ θ, Solves θ S ∧ Unifies θ as fs
  /-- No choice is there twice, not even with other facts that are equal. -/
  distinct : (found.map Prod.fst).Pairwise fun fs gs => ¬ List.Forall₂ (· ≈ ·) fs gs
  isInstance : ∀ b ∈ found, IsInstance S as b.1 b.2

theorem branches_corresponds (hS : S.Acyclic) (as : List Atom) (facts : Roster Atom) :
    Corresponds as facts S (branches facts.items as S) where
  choices := by
    intro fs
    rw [← exists_mem_branches_iff hS, List.mem_map]
    exact ⟨fun ⟨b, hb, h⟩ => ⟨b.2, h ▸ hb⟩, fun ⟨S', h⟩ => ⟨_, h, rfl⟩⟩
  distinct := by
    refine List.pairwise_map.mpr (branches_pairwise ?_)
    exact facts.distinct.imp Atom.not_equiv_iff.mpr
  isInstance := fun b hb => (mem_branches_iff.mp hb).2.isInstance hS

/-- **The search for instances is exact.**  From acyclic bindings and any finite set of facts, ground or not,
it comes to an end, and what it finds corresponds one to one to the choices of facts that can be unified
with the antecedents.  A rule without antecedents has the bindings at the start for its only instance. -/
theorem instances_exact (r : Rule) (facts : Roster Atom) (S : Substitution) (hS : S.Acyclic) :
    Unbounded.attempts facts.items r.antecedents S = some (attempts facts.items r.antecedents S) ∧
    (∃ found, Corresponds r.antecedents facts S found ∧
      found.map Prod.snd = r.instances facts.items S) ∧
    (r.antecedents = [] → r.instances facts.items S = [S]) := by
  refine ⟨Unbounded.attempts_eq hS, ⟨_, branches_corresponds hS _ _, map_snd_branches⟩, ?_⟩
  intro hnil
  rw [Rule.instances, hnil]
  rfl

/-- Facts that share a variable, from bindings in which another variable stands for a term with a variable of
the rule: four of the sixteen choices can be unified, and the others are given up half-way. -/
theorem instances_exact_shared_variable :
    (empty.insert "Z" (.app "f" [.var "Y"])).Acyclic ∧
    ∃ found, found.length = 4 ∧
      Corresponds [⟨"p", [.var "X", .var "Y"]⟩, ⟨"p", [.var "Y", .var "X"]⟩]
        (.ofList [⟨"p", [.const (.text "a"), .var "V"]⟩, ⟨"p", [.var "V", .const (.text "a")]⟩,
          ⟨"p", [.var "V", .app "f" [.var "V"]]⟩, ⟨"p", [.const (.text "b"), .const (.text "c")]⟩])
        (empty.insert "Z" (.app "f" [.var "Y"])) found := by
  have hS : (empty.insert "Z" (.app "f" [.var "Y"])).Acyclic :=
    acyclic_empty.insert (acyclic_empty.occurs_eq_false_iff.mp (by decide))
  obtain ⟨_, ⟨found, hfound, hinstances⟩, _⟩ := instances_exact
    ⟨[⟨"p", [.var "X", .var "Y"]⟩, ⟨"p", [.var "Y", .var "X"]⟩], ⟨"q", [.var "X"]⟩, ""⟩
    (.ofList [⟨"p", [.const (.text "a"), .var "V"]⟩, ⟨"p", [.var "V", .const (.text "a")]⟩,
      ⟨"p", [.var "V", .app "f" [.var "V"]]⟩, ⟨"p", [.const (.text "b"), .const (.text "c")]⟩])
    _ hS
  refine ⟨hS, found, ?_, hfound⟩
  rw [← List.length_map Prod.snd, hinstances]
  decide

end ForwardChaining
