import ForwardChaining.Content

/-!
# Caps

The number of passes of an inference is capped by a positive integer. Nothing else will do, not even a
number that is equal to one.
-/

namespace ForwardChaining

/-- A cap on the number of passes. -/
abbrev Cap := { n : Nat // 1 ≤ n }

/-- The cap that is taken where none is given. -/
def Cap.standard : Cap := ⟨100, by decide⟩

/-- Something that was given for a cap and is none. -/
structure CapError where
  got : Content

/-- The message for something that is no cap. -/
def CapError.message (e : CapError) : String :=
  "max_iterations must be a positive integer, got " ++ e.got.shown

/-- The cap that an integer is. -/
def Cap.ofInt (n : Int) : Except CapError Cap :=
  if h : 1 ≤ n then .ok ⟨n.toNat, by omega⟩ else .error ⟨.datum (.int n)⟩

/-- The cap that something is. -/
def Cap.ofContent : Content → Except CapError Cap
  | .datum (.scalar (.int n)) => Cap.ofInt n
  | c => .error ⟨c⟩

end ForwardChaining
