import ForwardChaining.Number.Shortest
import ForwardChaining.Text.Quoted

/-!
# Values

A constant names an opaque value: a text, an integer, a binary64 number, a truth value or nothing.

Values are compared by what they stand for and not by how they are held. A number of any kind, and the
two truth values as one and zero, has an exact place on the extended number line (`Value.place?`), and
two values with a place are equal when it is the same: the integer one, the number `1.0` and true are one
value. Texts equal only themselves, and so does nothing. The comparison is an equivalence relation.
-/

namespace ForwardChaining

/-- What a constant stands for. -/
inductive Value where
  | text (s : String)
  | int (n : Int)
  | real (x : Binary64)
  | bool (b : Bool)
  | null

/-- A place on the extended number line. What is no number has a place of its own. -/
inductive Place where
  | finite (x : Dyadic)
  | infinite (negative : Bool)
  | nowhere
deriving DecidableEq

/-- The place of a binary64 number; both zeros have the same one. -/
def Binary64.place : Binary64 → Place
  | .finite negative significand exponent _ =>
    .finite (Dyadic.ofIntWithPrec (if negative then -(significand : Int) else significand) (-exponent))
  | .infinite negative => .infinite negative
  | .nan => .nowhere

namespace Value

/-- The place of a value that counts as a number. -/
def place? : Value → Option Place
  | text _ => none
  | int n => some (.finite (Dyadic.ofInt n))
  | real x => some x.place
  | bool b => some (.finite (if b then 1 else 0))
  | null => none

/-- Whether two values are equal. -/
def same : Value → Value → Bool
  | text s, text t => s = t
  | null, null => true
  | a, b => match a.place?, b.place? with
    | some x, some y => x = y
    | _, _ => false

instance : BEq Value := ⟨same⟩

theorem beq_eq_same (a b : Value) : (a == b) = a.same b := rfl

@[simp] theorem same_self (a : Value) : a.same a = true := by
  cases a <;> simp [same, place?]

theorem same_symm {a b : Value} (h : a.same b = true) : b.same a = true := by
  cases a <;> cases b <;> simp_all [same, place?]

theorem same_trans {a b c : Value} (hab : a.same b = true) (hbc : b.same c = true) :
    a.same c = true := by
  cases a <;> cases b <;> cases c <;> simp_all [same, place?]

instance : EquivBEq Value where
  rfl := same_self _
  symm := same_symm
  trans := same_trans

/-- The text that a constant is displayed by: a text stands for itself, without quotes. -/
def display : Value → String
  | text s => s
  | int n => toString n
  | real x => x.text
  | bool b => if b then "True" else "False"
  | null => "None"

/-- The text that a message shows for a value: as displayed, a text between quotes. -/
def shown : Value → String
  | text s => Text.quote s
  | v => v.display

end Value

end ForwardChaining
