import ForwardChaining.Event
import ForwardChaining.Proofs.Findings
import ForwardChaining.Proofs.Unification.Frame
import ForwardChaining.Proofs.Unification.OneWay

/-!
# The search on ground facts

`stations` lists the bindings that the search has in hand on its way, each with the facts that were chosen for the
first antecedents.  The last stations of the completed branches are the instances of the rule
(`branches_eq_filter_stations`), and a station is nothing but a match of as many antecedents as it has facts
(`mem_stations_iff`).

On ground facts a station is a one-way match (`Matches.isOneWayMatch`): the variables of those antecedents are bound,
each directly to a ground subterm of a fact, and no others.  That they are bound to subterms of facts is what
`unify_oneWay` preserves along a match, with the set `groundParts`.  That no others are bound, and none of these is left
out, follows from what the map does that the bindings stand for: it is ground on these variables and keeps the others.

As the bound terms are ground, a substitution is determined by its map, so that no two instances are equal.  And as no
variable occurs in a ground term, no attempt on the way rejects a binding, whence no inference reports one.
-/

namespace ForwardChaining

open Substitution

variable {as fs facts : List Atom} {S T : Substitution} {t : Term} {v : String}

/-! ### Stations of a search -/

/-- The bindings in hand during the search, each with the facts chosen so far. -/
def stations (facts : List Atom) : List Atom → Substitution → List (List Atom × Substitution)
  | [], S => [([], S)]
  | a :: rest, S => ([], S) :: facts.flatMap fun f =>
    if (unify a.toTerm f.toTerm S).isUnified then
      (stations facts rest (unify a.toTerm f.toTerm S).bindings).map fun s => (f :: s.1, s.2)
    else []

/-- **The stations are the matches** of the first antecedents with facts. -/
theorem mem_stations_iff : (fs, T) ∈ stations facts as S ↔
    (∀ f ∈ fs, f ∈ facts) ∧ fs.length ≤ as.length ∧ Matches (as.take fs.length) fs S T := by
  induction as generalizing S fs with
  | nil =>
    rw [stations, List.mem_singleton, Prod.mk.injEq]
    constructor
    · rintro ⟨rfl, rfl⟩
      exact ⟨fun _ h => absurd h List.not_mem_nil, Nat.le_refl _, .nil⟩
    · rintro ⟨_, _, h⟩
      rw [List.take_nil] at h
      cases h
      exact ⟨rfl, rfl⟩
  | cons a as ih =>
    rw [stations, List.mem_cons, List.mem_flatMap, Prod.mk.injEq]
    constructor
    · rintro (⟨rfl, rfl⟩ | ⟨f, hf, h⟩)
      · exact ⟨fun _ h => absurd h List.not_mem_nil, Nat.zero_le _, .nil⟩
      · split at h
        · next hok =>
          obtain ⟨⟨gs, T'⟩, hs, heq⟩ := List.mem_map.mp h
          cases heq
          obtain ⟨hgs, hlen, hmatch⟩ := ih.mp hs
          exact ⟨List.forall_mem_cons.mpr ⟨hf, hgs⟩, Nat.succ_le_succ hlen, .cons hok hmatch⟩
        · exact absurd h List.not_mem_nil
    · rintro ⟨hfs, hlen, h⟩
      cases fs with
      | nil =>
        cases h
        exact .inl ⟨rfl, rfl⟩
      | cons f fs =>
        rw [List.length_cons, List.take_succ_cons] at h
        cases h with
        | cons hok h =>
          obtain ⟨hf, hfs⟩ := List.forall_mem_cons.mp hfs
          refine .inr ⟨f, hf, ?_⟩
          rw [if_pos hok]
          exact List.mem_map.mpr ⟨(fs, T), ih.mpr ⟨hfs, Nat.le_of_succ_le_succ hlen, h⟩, rfl⟩

/-- **The completed branches end at the stations that have a fact for every antecedent.** -/
theorem branches_eq_filter_stations (facts as : List Atom) (S : Substitution) :
    branches facts as S = (stations facts as S).filter fun s => s.1.length = as.length := by
  induction as generalizing S with
  | nil => rfl
  | cons a as ih =>
    rw [branches, stations, List.filter_cons_of_neg (by simp), List.filter_flatMap]
    refine List.flatMap_congr fun f _ => ?_
    split
    · rw [ih, List.filter_map]
      simp [Function.comp_def]
    · rfl

/-! ### Stations on ground facts -/

def groundParts (facts : List Atom) (t : Term) : Prop :=
  t.isGround = true ∧ ∃ f ∈ facts, t ∈ f.toTerm.subterms

theorem isGroundSet_groundParts (facts : List Atom) : IsGroundSet (groundParts facts) where
  ground := fun _ h => h.1
  arg := by
    rintro f args ⟨hground, a, ha, h⟩ t ht
    refine ⟨Term.isGround_app.mp hground t ht, a, ha, Term.mem_subterms_trans h ?_⟩
    exact Term.mem_subterms_app.mpr (.inr ⟨t, ht, t.mem_subterms_self⟩)

theorem groundParts_of_mem (hfacts : ∀ f ∈ facts, f.isGround = true) {f : Atom} (hf : f ∈ facts) :
    groundParts facts f.toTerm := ⟨hfacts f hf, f, hf, f.toTerm.mem_subterms_self⟩

theorem Matches.bindsInto (h : Matches as fs S T) {G : Term → Prop} (hG : IsGroundSet G) (hS : BindsInto G S)
    (hfs : ∀ f ∈ fs, G f.toTerm) : BindsInto G T := by
  induction h with
  | nil => exact hS
  | cons _ _ ih =>
    obtain ⟨hf, hfs⟩ := List.forall_mem_cons.mp hfs
    exact ih (unify_oneWay hG hS (.inr hf)).into hfs

/-- `S` matches the antecedents with the facts, one way. -/
structure IsOneWayMatch (as fs : List Atom) (S : Substitution) : Prop where
  /-- Exactly the variables of the antecedents are bound. -/
  bound_iff : ∀ v, (∃ t, S.find? v = some t) ↔ ∃ a ∈ as, v ∈ a.vars
  value : ∀ v t, S.find? v = some t → t.isGround = true ∧ ∃ f ∈ fs, t ∈ f.toTerm.subterms
  equal : List.Forall₂ (fun a f => S.applyAtom a ≈ f) as fs

theorem IsOneWayMatch.acyclic (h : IsOneWayMatch as fs S) : S.Acyclic :=
  (isGroundSet_groundParts fs).acyclic h.value

theorem IsOneWayMatch.apply_of_bound (h : IsOneWayMatch as fs S) (hv : S.find? v = some t) :
    S.apply (.var v) = t := by
  rw [h.acyclic.apply_of_bound hv, ← bind_apply_var, Term.bind_eq_self_of_isGround (h.value v t hv).1]

/-- **A match of ground facts is one-way.** -/
theorem Matches.isOneWayMatch (h : Matches as fs .empty S) (hfs : ∀ f ∈ fs, f.isGround = true) :
    IsOneWayMatch as fs S := by
  have hinto : BindsInto (groundParts fs) S :=
    h.bindsInto (isGroundSet_groundParts fs) (bindsInto_empty _) fun f hf => groundParts_of_mem hfs hf
  -- The antecedents may be any part of a rule's; with any consequent they make a rule of their own.
  let r : Rule := ⟨as, ⟨"", []⟩, ""⟩
  have hgrounds : r.Grounds fun v => S.apply (.var v) := Matches.grounds (r := r) h hfs
  refine ⟨fun v => ?_, hinto, h.apply_equiv_fact acyclic_empty hfs⟩
  have hmem : (∃ a ∈ as, v ∈ a.vars) ↔ v ∈ r.antecedentVars := (Rule.mem_antecedentVars (r := r)).symm
  rw [hmem]
  constructor
  · rintro ⟨t, ht⟩
    by_contra hfree
    have hkept : S.apply (.var v) = .var v := hgrounds.kept v hfree
    have hground := (hinto v t ht).1
    rw [((isGroundSet_groundParts fs).acyclic hinto).apply_of_bound ht, ← bind_apply_var,
      Term.bind_eq_self_of_isGround hground] at hkept
    rw [hkept] at hground
    exact absurd hground (by simp [Term.isGround])
  · intro hv
    have hground : (S.apply (.var v)).isGround = true := hgrounds.ground v hv
    cases hfind : S.find? v with
    | some t => exact ⟨t, rfl⟩
    | none =>
      rw [apply_of_unbound hfind] at hground
      exact absurd hground (by simp [Term.isGround])

/-! ### Equal substitutions -/

/-- The same variables are bound, and to equal terms. -/
def Substitution.Same (S T : Substitution) : Prop := ∀ v, Option.Rel (· ≈ ·) (S.find? v) (T.find? v)

theorem IsOneWayMatch.apply_equiv_of_same {as' fs' : List Atom} (h : IsOneWayMatch as fs S)
    (h' : IsOneWayMatch as' fs' T) (hsame : S.Same T) (v : String) : S.apply (.var v) ≈ T.apply (.var v) := by
  have hv := hsame v
  cases hS : S.find? v with
  | none =>
    cases hT : T.find? v with
    | none => rw [apply_of_unbound hS, apply_of_unbound hT]
    | some u => rw [hS, hT] at hv; cases hv
  | some t =>
    cases hT : T.find? v with
    | none => rw [hS, hT] at hv; cases hv
    | some u =>
      rw [hS, hT] at hv
      cases hv with
      | some htu => rwa [h.apply_of_bound hS, h'.apply_of_bound hT]

theorem Rule.instances_pairwise {F : Roster Atom} (r : Rule) (hF : F.Ground) :
    (r.instances F.items .empty).Pairwise fun S T => ¬ S.Same T := by
  have hmatch : ∀ S ∈ r.instances F.items .empty, ∃ fs, IsOneWayMatch r.antecedents fs S := by
    intro S hS
    obtain ⟨fs, hfs, h⟩ := ok_mem_attempts_iff.mp (Rule.mem_instances_iff.mp hS)
    exact ⟨fs, h.isOneWayMatch fun f hf => hF f (hfs f hf)⟩
  refine (r.enumerates_instances hF).distinct.imp_of_mem fun {S T} hS hT hne hsame => ?_
  obtain ⟨fs, h⟩ := hmatch S hS
  obtain ⟨fs', h'⟩ := hmatch T hT
  exact hne (h.apply_equiv_of_same h' hsame)

/-! ### Nothing is rejected -/

theorem attempts_completed {G : Term → Prop} (hG : IsGroundSet G) (hS : BindsInto G S)
    (hfacts : ∀ f ∈ facts, G f.toTerm) : ∀ e ∈ attempts facts as S, ∃ T, e = .ok T := by
  induction as generalizing S with
  | nil =>
    intro e he
    exact ⟨S, List.mem_singleton.mp he⟩
  | cons a as ih =>
    intro e he
    rw [attempts] at he
    obtain ⟨f, hf, he⟩ := List.mem_flatMap.mp he
    have hone : OneWay G (unify a.toTerm f.toTerm S) := unify_oneWay hG hS (.inr (hfacts f hf))
    generalize unify a.toTerm f.toTerm S = u at hone he
    obtain ⟨verdict, T⟩ := u
    cases verdict with
    | unified => exact ih hone.into e he
    | occurs v t => exact absurd hone.silent (List.cons_ne_nil _ _)
    | clash => exact absurd he List.not_mem_nil
    | unfinished => exact absurd he List.not_mem_nil

theorem not_bindingRejected_mem_run_events {rules : List Rule} {number : Nat} {K : Roster Atom} (hK : K.Ground)
    (x : Rejection) : .bindingRejected x ∉ (Pass.run rules number K).events := by
  intro h
  rcases List.mem_append.mp h with h | h
  · obtain ⟨⟨r, finding⟩, hfinding, hevent⟩ := List.mem_filterMap.mp h
    obtain ⟨e, he, hfound⟩ := List.mem_map.mp (Pass.mem_findings_run.mp hfinding).2
    obtain rfl : r.findingOf e = finding := hfound
    obtain ⟨S, rfl⟩ := attempts_completed (isGroundSet_groundParts K.items) (bindsInto_empty _)
      (fun f hf => groundParts_of_mem hK hf) e he
    rw [Rule.findingOf] at hevent
    split at hevent <;> cases hevent
  · cases List.mem_singleton.mp h

def BeginsWith (c : Char) (s : String) : Prop := s.toList.head? = some c

theorem BeginsWith.append {s : String} {c : Char} (h : BeginsWith c s) (t : String) : BeginsWith c (s ++ t) := by
  rw [BeginsWith, String.toList_append, List.head?_append, h]
  rfl

/-- **The message tells a rejected binding from all other events**, by its first letter. -/
theorem Event.exists_eq_bindingRejected {ev : Event} (h : Text.codes "Occurs check failed" <+: ev.record.message) :
    ∃ x, ev = .bindingRejected x := by
  have h : "Occurs check failed".toList <+: ev.message.toList :=
    (List.prefix_map_iff_of_injective fun _ _ heq => CodePoint.char.inj heq).1 h
  have hO : ∀ {c : Char}, BeginsWith c ev.message → c = 'O' := by
    intro c hc
    obtain ⟨rest, hrest⟩ := h
    rw [BeginsWith, ← hrest] at hc
    exact (Option.some.inj hc).symm
  have text : ∀ {c : Char} {s : String}, s.toList.head? = some c → BeginsWith c s := id
  cases ev with
  | bindingRejected x => exact ⟨x, rfl⟩
  | consequentDiscarded a r =>
    exact absurd (hO (c := 'D') ((((text rfl).append _).append _).append _)) (by decide)
  | deadRule r =>
    exact absurd (hO (c := 'R') (((((text rfl).append _).append _).append _).append _)) (by decide)
  | factRejected d => exact absurd (hO (c := 'C') ((text rfl).append _)) (by decide)
  | inferenceStarted m n =>
    exact absurd (hO (c := 'S') (((((text rfl).append _).append _).append _).append _)) (by decide)
  | passMade p =>
    have hI : BeginsWith 'I' (passMade p).message := by
      change BeginsWith 'I' (ite _ _ _)
      split
      · exact ((((text rfl).append _).append _).append _).append _
      · exact (((((text rfl).append _).append _).append _).append _).append _
    exact absurd (hO hI) (by decide)
  | capReached m n => exact absurd (hO (c := 'I') (((text rfl).append _).append _)) (by decide)
  | inferenceFinished s m n k ms =>
    have hI : BeginsWith 'I' (inferenceFinished s m n k ms).message :=
      ((((((((text rfl).append _).append _).append _).append _).append _).append _).append _).append _
    exact absurd (hO hI) (by decide)
  | programLoaded p => exact absurd (hO (c := 'L') ((text rfl).append _)) (by decide)

theorem not_bindingRejected_mem_infer_events (e : Engine) (milliseconds : Binary64) (x : Rejection) :
    .bindingRejected x ∉ e.infer.events milliseconds := by
  intro h
  rcases List.mem_append.mp h with h | h
  · rcases List.mem_append.mp h with h | h
    · rcases List.mem_cons.mp h with h | h
      · cases h
      · obtain ⟨p, hp, h⟩ := List.mem_flatMap.mp h
        obtain ⟨number, K, hK, rfl⟩ := (infer_saturates e).exists_ground e.facts.ground hp
        exact not_bindingRejected_mem_run_events hK x h
    · split at h
      · exact absurd h List.not_mem_nil
      · cases List.mem_singleton.mp h
  · cases List.mem_singleton.mp h

/-- **On ground facts the search is one-way matching.**  Whatever bindings it has in hand after some antecedents, they
bind the variables of these and no others, each directly to a ground subterm of a fact that was chosen, and make each
antecedent equal to its fact.  An attempt to match the next antecedent comes to an end and reports no rejected binding.
No two of the instances, which are the bindings in hand after all antecedents, are equal.  So no event of any inference
has the message of a rejected binding. -/
theorem search_isOneWay (r : Rule) (F : Roster Atom) (hF : F.Ground) :
    (∀ s ∈ stations F.items r.antecedents .empty,
      (∀ f ∈ s.1, f ∈ F.items) ∧ IsOneWayMatch (r.antecedents.take s.1.length) s.1 s.2 ∧
      ∀ a f rs, r.antecedents[s.1.length]? = some a → f ∈ F.items →
        ∃ answer T, Unbounded.unifyIn a.toTerm f.toTerm ⟨s.2, rs⟩ = some (answer, ⟨T, rs⟩)) ∧
    r.instances F.items .empty =
      ((stations F.items r.antecedents .empty).filter fun s => s.1.length = r.antecedents.length).map Prod.snd ∧
    (r.instances F.items .empty).Pairwise (fun S T => ¬ S.Same T) ∧
    ∀ (e : Engine) (milliseconds : Binary64), ∀ ev ∈ e.infer.events milliseconds,
      ¬ Text.codes "Occurs check failed" <+: ev.record.message := by
  refine ⟨?_, ?_, r.instances_pairwise hF, ?_⟩
  · rintro ⟨fs, S⟩ hs
    obtain ⟨hfs, _, hmatch⟩ := mem_stations_iff.mp hs
    have hone := hmatch.isOneWayMatch fun f hf => hF f (hfs f hf)
    refine ⟨hfs, hone, fun a f rs _ hf => ?_⟩
    have hinto : BindsInto (groundParts F.items) S := by
      intro v t hv
      obtain ⟨hground, g, hg, ht⟩ := hone.value v t hv
      exact ⟨hground, g, hfs g hg, ht⟩
    have hsilent : (unify a.toTerm f.toTerm S).reports = [] :=
      (unify_oneWay (isGroundSet_groundParts F.items) hinto (.inr (groundParts_of_mem hF hf))).silent
    have hrun := Unbounded.unifyIn_eq hone.acyclic a.toTerm f.toTerm rs
    rw [Unification.leave, hsilent, List.append_nil] at hrun
    exact ⟨_, _, hrun⟩
  · rw [Rule.instances, ← map_snd_branches, branches_eq_filter_stations]
  · intro e milliseconds ev hev hmessage
    obtain ⟨x, rfl⟩ := Event.exists_eq_bindingRejected hmessage
    exact not_bindingRejected_mem_infer_events e milliseconds x hev

/-- A variable inside a compound term is bound by the first antecedent and met again by the second one, where an equal
value of another kind is found; the branch of the other fact ends half-way. -/
theorem search_isOneWay_join :
    let r : Rule := ⟨[⟨"p", [.var "X", .app "f" [.var "Y"]]⟩, ⟨"q", [.var "Y", .var "X"]⟩], ⟨"r", [.var "X"]⟩, ""⟩
    let F : Roster Atom := .ofList [⟨"p", [.const (.text "a"), .app "f" [.const (.int 1)]]⟩,
      ⟨"p", [.const (.text "b"), .app "f" [.const (.int 2)]]⟩, ⟨"q", [.const (.bool true), .const (.text "a")]⟩]
    F.Ground ∧ (stations F.items r.antecedents .empty).length = 4 ∧
      (∀ s ∈ stations F.items r.antecedents .empty, IsOneWayMatch (r.antecedents.take s.1.length) s.1 s.2) ∧
      (r.instances F.items .empty).length = 1 := by
  intro r F
  have hF : ∀ a ∈ F.items, a.isGround = true := by decide
  exact ⟨hF, by decide, fun s hs => ((search_isOneWay r F hF).1 s hs).2.1, by decide⟩

end ForwardChaining
