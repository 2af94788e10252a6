import ForwardChaining.Engine
import ForwardChaining.Settings.Loading

/-!
# The settings of a session

A session looks for its settings when they are first needed and then keeps them, whatever becomes of the
files. They can be set, put back to the standard ones, and forgotten, so that they are looked for anew. A
look that fails leaves the session as it was.
-/

namespace ForwardChaining

/-- The settings that a session has found or been given. -/
structure Session where
  settings : Option Settings := none

namespace Session

/-- The settings of the session, looked for if it has none yet. -/
def get (s : Session) (libraries : Libraries) (fs : Files) : Except LoadError Settings × Session :=
  match s.settings with
  | some settings => (.ok settings, s)
  | none =>
    match Settings.load libraries fs none with
    | .ok settings => (.ok settings, { settings := some settings })
    | .error e => (.error e, s)

/-- The session with settings given to it. -/
def set (_ : Session) (settings : Settings) : Session := { settings := some settings }

/-- The session with the standard settings. -/
def reset (s : Session) : Session := s.set {}

/-- The session without settings. -/
def forget (_ : Session) : Session := {}

end Session

/-- Why an engine cannot be made. -/
inductive EngineError where
  | load (e : LoadError)
  | cap (e : CapError)

/-- The cap of a new engine: the one that is given, or else the one of the session's settings. -/
def Session.capFor (s : Session) (libraries : Libraries) (fs : Files) (given : Option Content) :
    Except EngineError Cap × Session :=
  match given with
  | some c => ((Cap.ofContent c).mapError .cap, s)
  | none =>
    let (settings, s) := s.get libraries fs
    ((settings.map Settings.cap).mapError .load, s)

/-- A new engine without facts and rules. -/
def Session.engine (s : Session) (libraries : Libraries) (fs : Files) (given : Option Content) :
    Except EngineError Engine × Session :=
  let (cap, s) := s.capFor libraries fs given
  (cap.map fun cap => { cap }, s)

end ForwardChaining
