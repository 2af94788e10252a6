import ForwardChaining.Engine
import ForwardChaining.Proofs.Roster

/-!
# What the stores gain

Whatever is added to an engine, it is said by some atoms and some rules: its facts gain the atoms that are
ground, its rules gain the rules, and its cap stays as it is (`Engine.Gains`).  What is gained in two steps is
gained in one (`Gains.trans`), so that lists and programs are added by one induction each.
-/

namespace ForwardChaining.Engine

variable {e e' e'' : Engine} {atoms atoms' : List Atom} {rules rules' : List Rule}

/-- `e'` is `e` with the ground ones of the atoms and with the rules added in turn. -/
structure Gains (e : Engine) (atoms : List Atom) (rules : List Rule) (e' : Engine) : Prop where
  facts : e'.facts.roster = e.facts.roster.insertAll (atoms.filter Atom.isGround)
  rules : e'.rules = e.rules.insertAll rules
  cap : e'.cap = e.cap

theorem Gains.refl (e : Engine) : e.Gains [] [] e := ⟨rfl, rfl, rfl⟩

theorem Gains.trans (h : e.Gains atoms rules e') (h' : e'.Gains atoms' rules' e'') :
    e.Gains (atoms ++ atoms') (rules ++ rules') e'' where
  facts := by rw [h'.facts, h.facts, List.filter_append, Roster.insertAll_append]
  rules := by rw [h'.rules, h.rules, Roster.insertAll_append]
  cap := h'.cap.trans h.cap

/-- What is gained determines the engine. -/
theorem Gains.unique (h : e.Gains atoms rules e') (h' : e.Gains atoms rules e'') : e' = e'' := by
  obtain ⟨⟨facts', ground'⟩, rules', cap'⟩ := e'
  obtain ⟨⟨facts'', ground''⟩, rules'', cap''⟩ := e''
  obtain rfl : facts' = facts'' := h.facts.trans h'.facts.symm
  obtain rfl : rules' = rules'' := h.rules.trans h'.rules.symm
  obtain rfl : cap' = cap'' := h.cap.trans h'.cap.symm
  rfl

theorem addFact_gains (e : Engine) (a : Atom) : e.Gains [a] [] (e.addFact a).1 := by
  by_cases ha : a.isGround = true
  · have hadd : e.facts.add? a = some (e.facts.insert a ha) := dif_pos ha
    rw [addFact, hadd]
    refine ⟨?_, rfl, rfl⟩
    rw [List.filter_cons_of_pos ha]
    rfl
  · have hadd : e.facts.add? a = none := dif_neg ha
    rw [addFact, hadd]
    refine ⟨?_, rfl, rfl⟩
    rw [List.filter_cons_of_neg ha]
    rfl

theorem addRule_gains (e : Engine) (r : Rule) : e.Gains [] [r] (e.addRule r).1 := ⟨rfl, rfl, rfl⟩

theorem addFacts_gains (e : Engine) (atoms : List Atom) : e.Gains atoms [] (e.addFacts atoms).1 := by
  induction atoms generalizing e with
  | nil => exact .refl e
  | cons a atoms ih => exact (e.addFact_gains a).trans (ih _)

theorem addRules_gains (e : Engine) (rules : List Rule) : e.Gains [] rules (e.addRules rules).1 := by
  induction rules generalizing e with
  | nil => exact .refl e
  | cons r rules ih => exact (e.addRule_gains r).trans (ih _)

theorem addStatements_gains (e : Engine) (p : Notation.Program) :
    e.Gains p.facts p.rules (e.addStatements p).1 := by
  have h := (e.addFacts_gains p.facts).trans (addRules_gains _ p.rules)
  rwa [List.append_nil, List.nil_append] at h

end ForwardChaining.Engine
