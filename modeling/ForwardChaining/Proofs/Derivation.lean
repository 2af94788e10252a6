import Mathlib.Data.Set.Defs
import ForwardChaining.Store
import ForwardChaining.Proofs.Matching
import ForwardChaining.Proofs.Roster

/-!
# What rules derive

Read as a sentence, a rule yields an atom from a set of atoms if some map that is ground on the variables of
the antecedents makes all antecedents members of the set and the consequent that atom (`Rule.Yields`).  On
ground facts the completed branches of the search are the maps that make all antecedents facts
(`Rule.instantiates_of_ok_mem_attempts`, `Rule.Instantiates.exists_ok_mem_attempts`).  So the search derives
what a rule yields, up to equality: `Rule.exists_mem_derive_iff`.

`consequences` collects what all rules derive from some facts.  As a set it depends on the facts as a set
only (`consequences_equiv`) and grows with them (`consequences_le`).
-/

namespace ForwardChaining

open Substitution

namespace Rule

variable {r : Rule} {facts : List Atom} {a d : Atom} {S : Substitution} {σ : String → Term}

/-- `σ` is ground on the variables of the antecedents and makes all antecedents members of `M`. -/
structure Instantiates (r : Rule) (M : Set Atom) (σ : String → Term) : Prop where
  grounds : r.Grounds σ
  mem : ∀ b ∈ r.antecedents, b.bind σ ∈ M

/-- Some instance of the rule has its antecedents in `M` and `a` for its consequent, which is ground. -/
def Yields (r : Rule) (M : Set Atom) (a : Atom) : Prop :=
  ∃ σ, r.Grounds σ ∧ (∀ b ∈ r.antecedents, b.bind σ ∈ M) ∧
    (r.consequent.bind σ).isGround = true ∧ r.consequent.bind σ ≈ a

theorem Yields.mono {M N : Set Atom} (h : r.Yields M a) (hMN : M ⊆ N) : r.Yields N a := by
  obtain ⟨σ, hσ, hants, hcons⟩ := h
  exact ⟨σ, hσ, fun b hb => hMN (hants b hb), hcons⟩

theorem Yields.congr {s : Rule} {M : Set Atom} (h : r.Yields M a) (hrs : (r == s) = true)
    (hM : ∀ b ∈ M, ∀ c, b ≈ c → c ∈ M) : s.Yields M a := by
  obtain ⟨σ, hσ, hants, hground, hcons⟩ := h
  have hvars : r.antecedentVars = s.antecedentVars := antecedentVars_eq_of_beq hrs
  have hconsequent : r.consequent.bind σ ≈ s.consequent.bind σ :=
    Atom.bind_equiv_bind (beq_iff.mp hrs).2 σ
  refine ⟨σ, ⟨hvars ▸ hσ.ground, hvars ▸ hσ.kept⟩, ?_, ?_, ?_⟩
  · intro b hb
    obtain ⟨c, hc, hbc⟩ := forall_exists_iff_exists_forall₂.mpr
      ⟨_, hants, forall₂_antecedents (BEq.symm hrs)⟩ b hb
    exact hM _ hc _ (Atom.bind_equiv_bind (Setoid.symm hbc) σ)
  · rw [← Atom.isGround_eq_of_equiv hconsequent]
    exact hground
  · exact Setoid.trans (Setoid.symm hconsequent) hcons

theorem mem_derive_iff :
    d ∈ r.derive facts ↔ ∃ S, .ok S ∈ attempts facts r.antecedents .empty ∧
      (S.applyAtom r.consequent).isGround = true ∧ S.applyAtom r.consequent = d := by
  rw [derive, findings, List.mem_filterMap]
  constructor
  · rintro ⟨_, hx, hd⟩
    obtain ⟨e, he, rfl⟩ := List.mem_map.mp hx
    cases e with
    | error _ => exact absurd hd (by simp [findingOf, Finding.derived?])
    | ok S =>
      rw [findingOf] at hd
      by_cases hground : (S.applyAtom r.consequent).isGround = true
      · rw [if_pos hground] at hd
        exact ⟨S, he, hground, Option.some.inj hd⟩
      · rw [if_neg hground] at hd
        exact absurd hd (by simp [Finding.derived?])
  · rintro ⟨S, hS, hground, rfl⟩
    refine ⟨_, List.mem_map_of_mem hS, ?_⟩
    rw [findingOf, if_pos hground]
    rfl

theorem isGround_of_mem_derive (h : d ∈ r.derive facts) : d.isGround = true := by
  obtain ⟨S, _, hground, rfl⟩ := mem_derive_iff.mp h
  exact hground

/-- **Soundness.**  The bindings of a completed branch, read as a map, make all antecedents facts. -/
theorem instantiates_of_ok_mem_attempts (hfacts : ∀ f ∈ facts, f.isGround = true)
    (h : .ok S ∈ attempts facts r.antecedents .empty) :
    r.Instantiates {a | ∃ f ∈ facts, f ≈ a} fun v => S.apply (.var v) := by
  obtain ⟨fs, hfs, hmatch⟩ := ok_mem_attempts_iff.mp h
  have hfs' : ∀ f ∈ fs, f.isGround = true := fun f hf => hfacts f (hfs f hf)
  refine ⟨hmatch.grounds hfs', fun b hb => ?_⟩
  obtain ⟨f, hf, hbf⟩ := hmatch.exists_fact acyclic_empty hfs' b hb
  refine ⟨f, hfs f hf, ?_⟩
  rw [Atom.bind_apply_var]
  exact Setoid.symm hbf

/-- **Completeness.**  Every map that makes all antecedents facts is found by some branch. -/
theorem Instantiates.exists_ok_mem_attempts (hfacts : ∀ f ∈ facts, f.isGround = true)
    (h : r.Instantiates {a | ∃ f ∈ facts, f ≈ a} σ) :
    ∃ S, .ok S ∈ attempts facts r.antecedents .empty ∧ ∀ v, S.apply (.var v) ≈ σ v := by
  have hchoose : ∀ b ∈ r.antecedents, ∃ f, (f ∈ facts ∧ f.isGround = true) ∧
      b.bind σ ≈ f.bind σ := by
    intro b hb
    obtain ⟨f, hf, hfb⟩ := h.mem b hb
    refine ⟨f, ⟨hf, hfacts f hf⟩, ?_⟩
    rw [Atom.bind_eq_self_of_isGround (hfacts f hf)]
    exact Setoid.symm hfb
  obtain ⟨fs, hfs, hall⟩ := forall_exists_iff_exists_forall₂.mp hchoose
  obtain ⟨S, hmatch, hsolves⟩ := exists_matches acyclic_empty (solves_empty σ) hall
  exact ⟨S, ok_mem_attempts_iff.mpr ⟨fs, fun f hf => (hfs f hf).1, hmatch⟩,
    hmatch.apply_equiv_of_solves (fun f hf => (hfs f hf).2) h.grounds hsolves⟩

theorem yields_of_mem_derive (hfacts : ∀ f ∈ facts, f.isGround = true) (h : d ∈ r.derive facts) :
    r.Yields {a | ∃ f ∈ facts, f ≈ a} d := by
  obtain ⟨S, hS, hground, rfl⟩ := mem_derive_iff.mp h
  obtain ⟨hσ, hants⟩ := instantiates_of_ok_mem_attempts hfacts hS
  refine ⟨fun v => S.apply (.var v), hσ, hants, ?_⟩
  rw [Atom.bind_apply_var]
  exact ⟨hground, Setoid.refl _⟩

theorem exists_mem_derive (hfacts : ∀ f ∈ facts, f.isGround = true)
    (h : r.Yields {a | ∃ f ∈ facts, f ≈ a} a) : ∃ d ∈ r.derive facts, d ≈ a := by
  obtain ⟨σ, hσ, hants, hground, hcons⟩ := h
  obtain ⟨S, hS, hagree⟩ := Instantiates.exists_ok_mem_attempts hfacts ⟨hσ, hants⟩
  have happly : S.applyAtom r.consequent ≈ r.consequent.bind σ := by
    rw [← Atom.bind_apply_var]
    exact Atom.bind_equiv hagree
  refine ⟨_, mem_derive_iff.mpr ⟨S, hS, ?_, rfl⟩, Setoid.trans happly hcons⟩
  rw [Atom.isGround_eq_of_equiv happly]
  exact hground

end Rule

/-- All atoms of the roster are ground. -/
def Roster.Ground (F : Roster Atom) : Prop := ∀ a ∈ F.items, a.isGround = true

/-- What a roster of atoms says, as a set. -/
def Roster.toSet (F : Roster Atom) : Set Atom := {a | F.contains a = true}

/-- All that the rules derive from some facts, each atom once. -/
def consequences (rules : List Rule) (F : Roster Atom) : Roster Atom :=
  Roster.ofList (rules.flatMap fun r => r.derive F.items)

variable {rules : List Rule} {F G : Roster Atom} {a : Atom}

theorem Roster.toSet_subset_toSet (h : F ≤ G) : F.toSet ⊆ G.toSet := fun a ha => h a ha

theorem Roster.mem_toSet_of_equiv {b : Atom} (h : a ∈ F.toSet) (hab : a ≈ b) : b ∈ F.toSet :=
  (F.contains_congr hab).symm.trans h

theorem Roster.isGround_of_contains (hF : F.Ground) (h : F.contains a = true) : a.isGround = true := by
  obtain ⟨b, hb, hba⟩ := Roster.contains_iff.mp h
  exact (Atom.isGround_eq_of_equiv hba).symm.trans (hF b hb)

theorem consequences_ground (rules : List Rule) (F : Roster Atom) :
    (consequences rules F).Ground := by
  intro a ha
  obtain ⟨r, _, har⟩ := List.mem_flatMap.mp (Roster.mem_of_mem_ofList ha)
  exact Rule.isGround_of_mem_derive har

theorem Roster.toSet_eq (F : Roster Atom) : F.toSet = {a | ∃ f ∈ F.items, f ≈ a} :=
  Set.ext fun _ => Roster.contains_iff

/-- **The search finds what a rule yields.** -/
theorem Rule.exists_mem_derive_iff {r : Rule} (hF : F.Ground) :
    (∃ d ∈ r.derive F.items, d ≈ a) ↔ r.Yields F.toSet a := by
  rw [F.toSet_eq]
  constructor
  · rintro ⟨d, hd, hda⟩
    obtain ⟨σ, hσ, hants, hground, hcons⟩ := yields_of_mem_derive hF hd
    exact ⟨σ, hσ, hants, hground, Setoid.trans hcons hda⟩
  · exact exists_mem_derive hF

theorem contains_consequences_iff (hF : F.Ground) :
    (consequences rules F).contains a = true ↔ ∃ r ∈ rules, r.Yields F.toSet a := by
  rw [consequences, Roster.contains_ofList]
  constructor
  · rintro ⟨d, hd, hda⟩
    obtain ⟨r, hr, hd⟩ := List.mem_flatMap.mp hd
    exact ⟨r, hr, (Rule.exists_mem_derive_iff hF).mp ⟨d, hd, hda⟩⟩
  · rintro ⟨r, hr, hyields⟩
    obtain ⟨d, hd, hda⟩ := (Rule.exists_mem_derive_iff hF).mpr hyields
    exact ⟨d, List.mem_flatMap.mpr ⟨r, hr, hd⟩, hda⟩

/-- **More rules and more facts have more consequences**, and it does not matter by which of several equal
rules and facts they are held. -/
theorem consequences_le_of_rules {rules' : List Rule} (hF : F.Ground) (hG : G.Ground)
    (hrules : ∀ r ∈ rules, ∃ s ∈ rules', (r == s) = true) (h : F ≤ G) :
    consequences rules F ≤ consequences rules' G := by
  intro a ha
  obtain ⟨r, hr, hyields⟩ := (contains_consequences_iff hF).mp ha
  obtain ⟨s, hs, hrs⟩ := hrules r hr
  refine (contains_consequences_iff hG).mpr ⟨s, hs, ?_⟩
  exact (hyields.congr hrs fun b hb c => Roster.mem_toSet_of_equiv hb).mono
    (Roster.toSet_subset_toSet h)

theorem consequences_le (hF : F.Ground) (hG : G.Ground) (h : F ≤ G) :
    consequences rules F ≤ consequences rules G :=
  consequences_le_of_rules hF hG (fun r hr => ⟨r, hr, BEq.refl r⟩) h

theorem consequences_equiv (hF : F.Ground) (hG : G.Ground) (h : F ≈ G) :
    consequences rules F ≈ consequences rules G :=
  Roster.equiv_of_le (consequences_le hF hG (Roster.le_of_equiv h))
    (consequences_le hG hF (Roster.le_of_equiv (Setoid.symm h)))

end ForwardChaining
