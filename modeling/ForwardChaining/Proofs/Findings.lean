import Mathlib.Data.Set.Function
import ForwardChaining.Event
import ForwardChaining.Proofs.Instances
import ForwardChaining.Proofs.Saturation.Order
import ForwardChaining.Proofs.Saturation.Termination

/-!
# What a rule finds

A rule that is tried on facts has one finding for each of its instances: it derives the consequent under the
instance if that is ground, and else discards it (`derive_eq`, `discards_eq`).

On ground facts the instances are the maps that make all antecedents facts, and none is found twice, since maps
that agree are made by the same choice of facts: `enumerates_instances`.  So a rule derives what it yields
(`exists_mem_derive_iff`), and what a rule yields is said without its search.  It depends on the antecedents as a
set (`Yields.of_antecedents`), and does not change with the names of the variables as long as different ones stay
different (`yields_rename_iff`).  So neither does what the rule derives: `derive_exact`.
-/

namespace ForwardChaining

open Substitution

/-- The atom whose discarding is reported. -/
def Event.discarded? : Event → Option Atom
  | .consequentDiscarded candidate _ => some candidate
  | _ => none

def Term.rename (ρ : String → String) (t : Term) : Term := t.bind fun v => .var (ρ v)

def Atom.rename (ρ : String → String) (a : Atom) : Atom := a.bind fun v => .var (ρ v)

namespace Rule

variable {r s : Rule} {facts : List Atom} {F : Roster Atom} {M : Set Atom} {a : Atom} {ρ ρ' : String → String}

def rename (ρ : String → String) (r : Rule) : Rule :=
  { r with antecedents := r.antecedents.map (Atom.rename ρ), consequent := r.consequent.rename ρ }

/-- The consequent under each instance of the rule. -/
def consequents (r : Rule) (facts : List Atom) : List Atom :=
  (r.instances facts .empty).map fun S => S.applyAtom r.consequent

/-- The atoms whose discarding is reported when the rule is tried on facts. -/
def discards (r : Rule) (facts : List Atom) : List Atom :=
  ((r.findings facts).filterMap (Event.ofFinding? r)).filterMap Event.discarded?

/-! ### One finding for each instance -/

theorem derived?_findingOf (r : Rule) (e : Except Rejection Substitution) :
    (r.findingOf e).derived? =
      ((completed? e).map fun S => S.applyAtom r.consequent).filter Atom.isGround := by
  cases e with
  | error _ => rfl
  | ok S =>
    rw [findingOf, completed?, Option.map_some, Option.filter_some]
    by_cases hground : (S.applyAtom r.consequent).isGround = true
    · rw [if_pos hground, if_pos hground]
      rfl
    · rw [if_neg hground, if_neg hground]
      rfl

theorem discarded?_findingOf (r : Rule) (e : Except Rejection Substitution) :
    (Event.ofFinding? r (r.findingOf e)).bind Event.discarded? =
      ((completed? e).map fun S => S.applyAtom r.consequent).filter fun a => !a.isGround := by
  cases e with
  | error _ => rfl
  | ok S =>
    rw [findingOf, completed?, Option.map_some, Option.filter_some]
    by_cases hground : (S.applyAtom r.consequent).isGround = true
    · rw [if_pos hground, hground]
      rfl
    · rw [if_neg hground, Bool.eq_false_iff.mpr hground]
      rfl

/-- **What is derived is what is ground of the consequents**, one for each instance. -/
theorem derive_eq (r : Rule) (facts : List Atom) :
    r.derive facts = (r.consequents facts).filter Atom.isGround := by
  rw [derive, findings, consequents, instances, List.filterMap_map, List.map_filterMap, List.filter_filterMap]
  exact congrArg (List.filterMap · _) (funext fun e => r.derived?_findingOf e)

/-- **What is discarded is the rest of them.** -/
theorem discards_eq (r : Rule) (facts : List Atom) :
    r.discards facts = (r.consequents facts).filter fun a => !a.isGround := by
  rw [discards, findings, consequents, instances, List.filterMap_map, List.filterMap_filterMap,
    List.map_filterMap, List.filter_filterMap]
  exact congrArg (List.filterMap · _) (funext fun e => r.discarded?_findingOf e)

/-! ### One instance for each map -/

/-- `found` lists the maps that make all antecedents members of `M`, each once. -/
structure Enumerates (r : Rule) (M : Set Atom) (found : List Substitution) : Prop where
  sound : ∀ S ∈ found, r.Instantiates M fun v => S.apply (.var v)
  complete : ∀ σ, r.Instantiates M σ → ∃ S ∈ found, ∀ v, S.apply (.var v) ≈ σ v
  distinct : found.Pairwise fun S T => ¬ ∀ v, S.apply (.var v) ≈ T.apply (.var v)

theorem mem_instances_iff {S T : Substitution} :
    T ∈ r.instances facts S ↔ .ok T ∈ attempts facts r.antecedents S := by
  rw [instances, List.mem_filterMap]
  constructor
  · rintro ⟨e, he, hcompleted⟩
    cases e with
    | error _ => cases hcompleted
    | ok T' => exact Option.some.inj hcompleted ▸ he
  · intro h
    exact ⟨.ok T, h, rfl⟩

theorem forall₂_equiv_of_agree {S T : Substitution} {as fs gs : List Atom}
    (hfs : List.Forall₂ (fun a f => S.applyAtom a ≈ f) as fs)
    (hgs : List.Forall₂ (fun a g => T.applyAtom a ≈ g) as gs)
    (hagree : ∀ v, S.apply (.var v) ≈ T.apply (.var v)) : List.Forall₂ (· ≈ ·) fs gs := by
  induction hfs generalizing gs with
  | nil =>
    cases hgs
    exact .nil
  | @cons a f as fs hf _ ih =>
    cases hgs with
    | @cons _ g _ gs hg hgs =>
      have happly : S.applyAtom a ≈ T.applyAtom a := by
        rw [← Atom.bind_apply_var, ← Atom.bind_apply_var]
        exact Atom.bind_equiv hagree
      exact .cons (Setoid.trans (Setoid.symm hf) (Setoid.trans happly hg)) (ih hgs)

/-- **The instances are the maps that make all antecedents facts**, each once. -/
theorem enumerates_instances (r : Rule) (hF : F.Ground) :
    r.Enumerates F.toSet (r.instances F.items .empty) where
  sound := by
    intro S hS
    rw [F.toSet_eq]
    exact instantiates_of_ok_mem_attempts hF (mem_instances_iff.mp hS)
  complete := by
    intro σ hσ
    rw [F.toSet_eq] at hσ
    obtain ⟨S, hS, hagree⟩ := hσ.exists_ok_mem_attempts hF
    exact ⟨S, mem_instances_iff.mpr hS, hagree⟩
  distinct := by
    rw [instances, ← map_snd_branches, List.pairwise_map]
    refine (branches_pairwise (F.distinct.imp Atom.not_equiv_iff.mpr)).imp_of_mem ?_
    -- Branches that end with the same map have chosen the same facts, and no choice is made twice.
    rintro ⟨fs, S⟩ ⟨gs, T⟩ hb hc hne hagree
    obtain ⟨hfs, hS⟩ := mem_branches_iff.mp hb
    obtain ⟨hgs, hT⟩ := mem_branches_iff.mp hc
    have hS' := hS.apply_equiv_fact acyclic_empty fun f hf => hF f (hfs f hf)
    have hT' := hT.apply_equiv_fact acyclic_empty fun g hg => hF g (hgs g hg)
    exact hne (forall₂_equiv_of_agree hS' hT' hagree)

/-! ### What a rule yields -/

/-- **What is yielded depends on the antecedents as a set.** -/
theorem Yields.of_antecedents (h : r.Yields M a) (hants : ∀ b, b ∈ r.antecedents ↔ b ∈ s.antecedents)
    (hcons : r.consequent = s.consequent) : s.Yields M a := by
  have hvars : ∀ v, v ∈ r.antecedentVars ↔ v ∈ s.antecedentVars := by
    intro v
    rw [mem_antecedentVars, mem_antecedentVars]
    exact exists_congr fun b => and_congr_left fun _ => hants b
  obtain ⟨σ, hσ, hmem, hground, heq⟩ := h
  refine ⟨σ, ⟨fun v hv => hσ.ground v ((hvars v).mpr hv), fun v hv => hσ.kept v (mt (hvars v).mp hv)⟩,
    fun b hb => hmem b ((hants b).mpr hb), ?_⟩
  rw [← hcons]
  exact ⟨hground, heq⟩

end Rule

/-! ### Names of variables -/

namespace Term

variable {t : Term} {ρ ρ' : String → String}

theorem bind_rename (ρ : String → String) (τ : String → Term) (t : Term) :
    (t.rename ρ).bind τ = t.bind fun v => τ (ρ v) := by
  induction t with
  | var v => rfl
  | const c => rfl
  | app f args ih =>
    rw [rename, bind_app, bind_app, bind_app, List.map_map]
    exact congrArg (app f) (List.map_congr_left ih)

theorem mem_vars_rename {w : String} : w ∈ (t.rename ρ).vars ↔ ∃ v ∈ t.vars, w = ρ v := by
  rw [rename, mem_vars_bind]
  exact exists_congr fun v => and_congr_right fun _ => List.mem_singleton

theorem rename_rename (h : ∀ v ∈ t.vars, ρ' (ρ v) = v) : (t.rename ρ).rename ρ' = t := by
  have hback : (t.rename ρ).rename ρ' = t.bind var := by
    rw [rename, bind_rename]
    exact bind_congr fun v hv => congrArg var (h v hv)
  rw [hback, bind_var_eq_self]

end Term

namespace Atom

variable {a : Atom} {ρ ρ' : String → String}

theorem toTerm_rename (ρ : String → String) (a : Atom) : (a.rename ρ).toTerm = a.toTerm.rename ρ :=
  a.toTerm_bind _

theorem bind_rename (ρ : String → String) (τ : String → Term) (a : Atom) :
    (a.rename ρ).bind τ = a.bind fun v => τ (ρ v) := by
  rw [rename, bind, bind, bind, List.map_map]
  congr 1
  exact List.map_congr_left fun t _ => t.bind_rename ρ τ

theorem mem_vars_rename {w : String} : w ∈ (a.rename ρ).vars ↔ ∃ v ∈ a.vars, w = ρ v := by
  rw [vars, toTerm_rename]
  exact Term.mem_vars_rename

theorem rename_rename (h : ∀ v ∈ a.vars, ρ' (ρ v) = v) : (a.rename ρ).rename ρ' = a := by
  refine toTerm_injective ?_
  rw [toTerm_rename, toTerm_rename]
  exact Term.rename_rename h

end Atom

namespace Rule

variable {r : Rule} {F : Roster Atom} {M : Set Atom} {a : Atom} {ρ ρ' : String → String}

theorem mem_antecedentVars_rename {w : String} :
    w ∈ (r.rename ρ).antecedentVars ↔ ∃ v ∈ r.antecedentVars, w = ρ v := by
  rw [mem_antecedentVars]
  constructor
  · rintro ⟨_, hrenamed, hw⟩
    obtain ⟨b, hb, rfl⟩ := List.mem_map.mp hrenamed
    obtain ⟨v, hv, rfl⟩ := Atom.mem_vars_rename.mp hw
    exact ⟨v, mem_antecedentVars.mpr ⟨b, hb, hv⟩, rfl⟩
  · rintro ⟨v, hv, rfl⟩
    obtain ⟨b, hb, hv⟩ := mem_antecedentVars.mp hv
    exact ⟨b.rename ρ, List.mem_map_of_mem hb, Atom.mem_vars_rename.mpr ⟨v, hv, rfl⟩⟩

theorem mem_vars_rename {w : String} : w ∈ (r.rename ρ).vars ↔ ∃ v ∈ r.vars, w = ρ v := by
  have hcons : w ∈ (r.rename ρ).consequent.vars ↔ ∃ v ∈ r.consequent.vars, w = ρ v := Atom.mem_vars_rename
  rw [vars, vars, List.mem_append, mem_antecedentVars_rename, hcons]
  simp only [List.mem_append, or_and_right, exists_or]

theorem rename_rename (h : ∀ v ∈ r.vars, ρ' (ρ v) = v) : (r.rename ρ).rename ρ' = r := by
  have hants : ∀ b ∈ r.antecedents, (b.rename ρ).rename ρ' = b := by
    intro b hb
    exact Atom.rename_rename fun v hv =>
      h v (List.mem_append_left _ (mem_antecedentVars.mpr ⟨b, hb, hv⟩))
  have hcons : (r.consequent.rename ρ).rename ρ' = r.consequent :=
    Atom.rename_rename fun v hv => h v (List.mem_append_right _ hv)
  rw [rename, rename, hcons, List.map_map]
  show ({ r with antecedents := r.antecedents.map fun b => (b.rename ρ).rename ρ' } : Rule) = r
  rw [List.map_congr_left hants, List.map_id']

/-- The map that gives the variables of the antecedents what `τ` gives their new names. -/
def unrename (r : Rule) (ρ : String → String) (τ : String → Term) (v : String) : Term :=
  if v ∈ r.antecedentVars then τ (ρ v) else .var v

theorem bind_unrename {τ : String → Term} {b : Atom} (h : ∀ v ∈ b.vars, v ∈ r.antecedentVars) :
    b.bind (r.unrename ρ τ) = (b.rename ρ).bind τ := by
  rw [Atom.bind_rename]
  exact Atom.bind_congr fun v hv => if_pos (h v hv)

/-- **What a rule yields under other names it yields under its own**, if different names were kept apart. -/
theorem Yields.of_rename (hρ : Set.InjOn ρ {v | v ∈ r.vars}) (h : (r.rename ρ).Yields M a) : r.Yields M a := by
  obtain ⟨τ, hτ, hmem, hground, heq⟩ := h
  -- A variable of the consequent is given a ground term under its new name, which is then a new name of an
  -- antecedent's variable; and that can only be the same variable.
  have hbound : ∀ v ∈ r.consequent.vars, v ∈ r.antecedentVars := by
    intro v hv
    by_contra hfree
    have hname : ρ v ∉ (r.rename ρ).antecedentVars := by
      intro hname
      obtain ⟨w, hw, hvw⟩ := mem_antecedentVars_rename.mp hname
      have hsame : v = w := hρ (List.mem_append_right _ hv) (List.mem_append_left _ hw) hvw
      exact hfree (hsame ▸ hw)
    refine Term.isGround_iff.mp hground (ρ v) ?_
    show ρ v ∈ ((r.consequent.rename ρ).bind τ).toTerm.vars
    rw [Atom.bind_rename, Atom.toTerm_bind]
    refine Term.mem_vars_bind.mpr ⟨v, hv, ?_⟩
    rw [hτ.kept _ hname]
    exact List.mem_singleton_self _
  have hants : ∀ b ∈ r.antecedents, ∀ v ∈ b.vars, v ∈ r.antecedentVars :=
    fun b hb v hv => mem_antecedentVars.mpr ⟨b, hb, hv⟩
  refine ⟨r.unrename ρ τ, ⟨fun v hv => ?_, fun v hv => if_neg hv⟩, fun b hb => ?_, ?_⟩
  · rw [unrename, if_pos hv]
    exact hτ.ground _ (mem_antecedentVars_rename.mpr ⟨v, hv, rfl⟩)
  · rw [bind_unrename (hants b hb)]
    exact hmem _ (List.mem_map_of_mem hb)
  · rw [bind_unrename hbound]
    exact ⟨hground, heq⟩

/-- **Names do not matter.**  Renaming back is a renaming too, so nothing is lost. -/
theorem yields_rename_iff (hρ : Set.InjOn ρ {v | v ∈ r.vars}) : (r.rename ρ).Yields M a ↔ r.Yields M a := by
  refine ⟨Yields.of_rename hρ, fun h => ?_⟩
  have hback : ∀ v ∈ r.vars, Function.invFunOn ρ {v | v ∈ r.vars} (ρ v) = v := hρ.leftInvOn_invFunOn
  refine Yields.of_rename (ρ := Function.invFunOn ρ {v | v ∈ r.vars}) ?_ ?_
  · intro w hw w' hw' hsame
    obtain ⟨v, hv, rfl⟩ := mem_vars_rename.mp hw
    obtain ⟨v', hv', rfl⟩ := mem_vars_rename.mp hw'
    rw [hback v hv, hback v' hv'] at hsame
    rw [hsame]
  · rw [rename_rename hback]
    exact h

/-- **What a rule finds on ground facts.**  The search comes to an end.  Its instances are the maps that make all
antecedents facts, each once, and for each of them, in their order, it derives the consequent if that is ground
and else reports it as discarded.  So, as a set, it derives the ground instances of the consequent for which all
antecedents are facts.  The facts that are derived stay the same, as a set, when the antecedents are put in
another order or repeated, and when the variables are renamed so that different ones stay different. -/
theorem derive_exact (r : Rule) (F : Roster Atom) (hF : F.Ground) :
    Unbounded.findings F.items r = some ((r.findings F.items).map fun f => (r, f)) ∧
    (∀ a, (∃ d ∈ r.derive F.items, d ≈ a) ↔ r.Yields F.toSet a) ∧
    r.Enumerates F.toSet (r.instances F.items .empty) ∧
    r.derive F.items = (r.consequents F.items).filter Atom.isGround ∧
    r.discards F.items = (r.consequents F.items).filter (fun a => !a.isGround) ∧
    (r.derive F.items).length + (r.discards F.items).length = (r.instances F.items .empty).length ∧
    (∀ s : Rule, (∀ b, b ∈ r.antecedents ↔ b ∈ s.antecedents) → r.consequent = s.consequent →
      SameFacts (r.derive F.items) (s.derive F.items)) ∧
    (∀ ρ, Set.InjOn ρ {v | v ∈ r.vars} → SameFacts ((r.rename ρ).derive F.items) (r.derive F.items)) := by
  refine ⟨Unbounded.findings_eq r, fun a => exists_mem_derive_iff hF, r.enumerates_instances hF,
    r.derive_eq _, r.discards_eq _, ?_, ?_, ?_⟩
  · rw [derive_eq, discards_eq, ← List.length_append, (List.filter_append_perm _ _).length_eq, consequents,
      List.length_map]
  · intro s hants hcons a
    rw [exists_mem_derive_iff hF, exists_mem_derive_iff hF]
    exact ⟨fun h => h.of_antecedents hants hcons,
      fun h => h.of_antecedents (fun b => (hants b).symm) hcons.symm⟩
  · intro ρ hρ a
    rw [exists_mem_derive_iff hF, exists_mem_derive_iff hF]
    exact yields_rename_iff hρ

/-- Two antecedents share a variable inside a compound term, and are exchanged and repeated; the names of the two
variables are exchanged. -/
theorem derive_exact_join :
    let p : Atom := ⟨"p", [.var "X", .app "f" [.var "Y"]]⟩
    let q : Atom := ⟨"q", [.var "Y"]⟩
    let r : Rule := ⟨[p, q], ⟨"r", [.app "g" [.var "Y"], .var "X"]⟩, ""⟩
    let s : Rule := { r with antecedents := [q, p, q] }
    let ρ : String → String := fun v => if v = "X" then "Y" else if v = "Y" then "X" else v
    let F : Roster Atom := .ofList [⟨"p", [.const (.text "a"), .app "f" [.const (.int 1)]]⟩,
      ⟨"p", [.const (.text "b"), .app "f" [.const (.int 2)]]⟩, ⟨"q", [.const (.bool true)]⟩]
    F.Ground ∧ (r.derive F.items).length = 1 ∧ (∀ a, (∃ d ∈ r.derive F.items, d ≈ a) ↔ r.Yields F.toSet a) ∧
      (∀ b, b ∈ r.antecedents ↔ b ∈ s.antecedents) ∧ SameFacts (r.derive F.items) (s.derive F.items) ∧
      Set.InjOn ρ {v | v ∈ r.vars} ∧ SameFacts ((r.rename ρ).derive F.items) (r.derive F.items) := by
  intro p q r s ρ F
  have hF : ∀ a ∈ F.items, a.isGround = true := by decide
  have hants : ∀ b, b ∈ r.antecedents ↔ b ∈ s.antecedents := by
    intro b
    show b ∈ [p, q] ↔ b ∈ [q, p, q]
    simp only [List.mem_cons, List.not_mem_nil, or_false]
    tauto
  have hnames : ∀ v ∈ r.vars, ∀ w ∈ r.vars, ρ v = ρ w → v = w := by decide
  have hρ : Set.InjOn ρ {v | v ∈ r.vars} := fun v hv w hw => hnames v hv w hw
  obtain ⟨_, hyields, _, _, _, _, hsame, hrename⟩ := derive_exact r F hF
  exact ⟨hF, by decide, hyields, hants, hsame s hants rfl, hρ, hrename ρ hρ⟩

end Rule

end ForwardChaining
