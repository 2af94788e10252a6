import ForwardChaining.Engine
import ForwardChaining.Object

/-!
# Requests to an engine

Everything that can be asked of an engine, with arguments that need not be well-formed. A request is
answered or refused. One that is refused leaves the engine as it was.
-/

namespace ForwardChaining.Engine

/-- What can be asked of an engine. -/
inductive Request where
  | addFact (x : Object)
  | addRule (x : Object)
  | factText (x : Object)
  | ruleText (x : Object)
  | program (x : Object)
  | infer
  | reset

/-- The answer to a request. -/
inductive Reply where
  /-- Whether the atom was accepted as a fact. -/
  | accepted (yes : Bool)
  | done
  | inferred (i : Inference)

/-- Why a request was refused. -/
inductive Fault where
  | mismatch (m : Mismatch)
  | unreadable (e : Notation.ParseError)
  | unreadableProgram (e : Notation.ProgramError)

/-- What serving a request comes to: an answer or a fault, the engine afterwards, and the events. -/
structure Service where
  reply : Except Fault Reply
  engine : Engine
  events : List Event := []

/-- A refusal: nothing has happened. -/
def refuse (e : Engine) (fault : Fault) : Service := { reply := .error fault, engine := e }

/-- An atom offered as a fact. -/
def serveFact (e : Engine) (a : Atom) : Service :=
  let (engine, events) := e.addFact a
  { reply := .ok (.accepted a.isGround), engine, events }

/-- A rule to be added. -/
def serveRule (e : Engine) (r : Rule) : Service :=
  let (engine, events) := e.addRule r
  { reply := .ok .done, engine, events }

/-- Serve one request. -/
def serve (e : Engine) : Request → Service
  | .addFact x => match x.asFact with
    | .ok a => e.serveFact a
    | .error m => e.refuse (.mismatch m)
  | .addRule x => match x.asRule with
    | .ok r => e.serveRule r
    | .error m => e.refuse (.mismatch m)
  | .factText x => match x.asText with
    | .ok text => match Notation.parseFact text with
      | .ok a => e.serveFact a
      | .error error => e.refuse (.unreadable error)
    | .error m => e.refuse (.mismatch m)
  | .ruleText x => match x.asText with
    | .ok text => match Notation.parseRule text with
      | .ok r => e.serveRule r
      | .error error => e.refuse (.unreadable error)
    | .error m => e.refuse (.mismatch m)
  | .program x => match x.asLines with
    | .ok text => match e.addProgram text with
      | .ok (engine, events) => { reply := .ok .done, engine, events }
      | .error error => e.refuse (.unreadableProgram error)
    | .error m => e.refuse (.mismatch m)
  | .infer =>
    let i := e.infer
    { reply := .ok (.inferred i), engine := e, events := i.events (.zero false) }
  | .reset => { reply := .ok .done, engine := e.reset }

/-- Serve requests in turn. -/
def serveAll (e : Engine) : List Request → Engine
  | [] => e
  | r :: rest => (e.serve r).engine.serveAll rest

end ForwardChaining.Engine
