import ForwardChaining.Inference
import ForwardChaining.Log.Record

/-!
# Events

What happens while knowledge is added, rules are matched and facts are saturated is a list of events.
Each has the record by which it is logged: unification and matching report to loggers of their own and
only in detail, the engine reports its runs, its refusals and its doubts.
-/

namespace ForwardChaining

/-- Something worth a log record. -/
inductive Event where
  /-- A variable was not bound to a term in which it occurs. -/
  | bindingRejected (r : Rejection)
  /-- An instantiated consequent was not ground. -/
  | consequentDiscarded (candidate : Atom) (rule : Rule)
  /-- A rule was added that has variables in its consequent only. -/
  | deadRule (rule : Rule)
  /-- An atom with a variable, or whatever has the given display, was refused as a fact. -/
  | factRejected (display : String)
  | inferenceStarted (facts rules : Nat)
  | passMade (pass : Pass)
  | capReached (maxIterations facts : Int)
  | inferenceFinished (status : String) (iterations facts derived : Int) (milliseconds : Binary64)
  | programLoaded (path : String)

namespace Event

/-- The logger that an event is reported to, unless another one is asked for. -/
def logger : Event → String
  | bindingRejected _ => "chainlog.unification"
  | consequentDiscarded .. => "chainlog.matching"
  | programLoaded _ => "chainlog.cli"
  | _ => "chainlog.engine"

/-- The level of an event. -/
def level : Event → Level
  | factRejected _ | capReached .. => .warning
  | inferenceStarted .. | inferenceFinished .. | programLoaded _ => .info
  | _ => .debug

/-- The message of an event. -/
def message : Event → String
  | bindingRejected r => "Occurs check failed for ?" ++ r.name ++ " in " ++ r.term.display
  | consequentDiscarded candidate rule =>
    "Discarding non-ground consequent " ++ candidate.display ++ " from rule " ++ rule.display
  | deadRule rule =>
    "Rule " ++ rule.display ++ " can never derive a fact: "
      ++ commaSeparated (sorted (rule.unboundVars.map fun v => "?" ++ v))
      ++ " not bound by any antecedent"
  | factRejected display => "Cannot add non-ground fact: " ++ display
  | inferenceStarted facts rules =>
    "Starting inference: " ++ toString facts ++ " facts, " ++ toString rules ++ " rules"
  | passMade pass =>
    if pass.newFacts.isEmpty then
      "Iteration " ++ toString pass.number ++ ": no new facts (" ++ toString pass.candidates.size
        ++ " candidates already known)"
    else
      "Iteration " ++ toString pass.number ++ ": derived " ++ toString pass.newFacts.length
        ++ " new facts: " ++ commaSeparated (pass.newFacts.map Atom.display)
  | capReached maxIterations _ =>
    "Inference stopped after " ++ toString maxIterations
      ++ " iterations (potential loop or unbounded derivation)"
  | inferenceFinished status iterations facts derived _ =>
    "Inference finished (" ++ status ++ ") after " ++ toString iterations ++ " iteration(s): "
      ++ toString derived ++ " derived, " ++ toString facts ++ " total"
  | programLoaded path => "Loaded program from " ++ path

/-- The fields of an event. -/
def fields : Event → List (CodeText × Datum)
  | factRejected display =>
    [("event_type", .text "non_ground_fact_rejected"), ("term", .text display)]
  | capReached maxIterations facts =>
    [("event_type", .text "iteration_cap_exceeded"), ("max_iterations", .int maxIterations),
     ("fact_count", .int facts)]
  | inferenceFinished status iterations facts derived milliseconds =>
    [("event_type", .text "inference_run"), ("status", .text status), ("iterations", .int iterations),
     ("fact_count", .int facts), ("derived_count", .int derived),
     ("execution_time_ms", .scalar (.real milliseconds))]
  | _ => []

/-- The record by which an event is logged. -/
def record (e : Event) : Record :=
  { level := e.level, logger := e.logger, message := e.message
    fields := e.fields.map fun f => (f.1, .datum f.2) }

/-- The event of a finding, if it is worth one: a derived fact is reported with its pass. -/
def ofFinding? (r : Rule) : Finding → Option Event
  | .derived _ => none
  | .discarded candidate => some (.consequentDiscarded candidate r)
  | .rejected rejection => some (.bindingRejected rejection)

end Event

/-- The events of a pass. -/
def Pass.events (p : Pass) : List Event :=
  (p.findings.filterMap fun f => Event.ofFinding? f.1 f.2) ++ [.passMade p]

/-- The events of an inference that took the given time. -/
def Inference.events (i : Inference) (milliseconds : Binary64) : List Event :=
  .inferenceStarted i.initial.size i.ruleCount :: i.passes.flatMap Pass.events
    ++ (if i.reachedFixpoint then [] else [.capReached i.maxIterations i.facts.length])
    ++ [.inferenceFinished i.status.word i.iterations i.facts.length i.derived.length milliseconds]

end ForwardChaining
