import Mathlib.Algebra.Field.Rat
import ForwardChaining.Value

/-!
# Values as numbers

Integers, binary64 numbers and the two truth values are compared by their places on the number line.  The place of a
finite one is the rational number that it stands for, `Value.rational?`, and nothing is rounded on the way there:
numbers of any two kinds are equal exactly if they are the same rational number (`Value.beq_iff_rational_eq`).  So an
integer that lies between two neighbours of the binary64 format is equal to neither of them.
-/

namespace ForwardChaining

/-- The rational number that a value stands for, if it stands for a finite one. -/
def Value.rational? : Value → Option ℚ
  | int n => some n
  | bool b => some (if b then 1 else 0)
  | real (.finite negative significand exponent _) =>
    some ((if negative then -(significand : ℚ) else significand) * 2 ^ exponent)
  | _ => none

namespace Value

variable {a b : Value} {q r : ℚ}

theorem exists_place_of_rational (h : a.rational? = some q) :
    ∃ d : Dyadic, a.place? = some (.finite d) ∧ d.toRat = q := by
  cases a with
  | text s => exact absurd h (by simp [rational?])
  | int n =>
    refine ⟨_, rfl, ?_⟩
    rw [rational?, Option.some.injEq] at h
    rw [← h]
    exact Dyadic.toRat_intCast n
  | real x =>
    cases x with
    | finite negative significand exponent parts =>
      refine ⟨_, rfl, ?_⟩
      rw [rational?, Option.some.injEq] at h
      rw [Dyadic.toRat_ofIntWithPrec_eq_mul_two_pow, neg_neg, ← h]
      cases negative <;> simp
    | infinite negative => exact absurd h (by simp [rational?])
    | nan => exact absurd h (by simp [rational?])
  | bool b =>
    refine ⟨_, rfl, ?_⟩
    rw [rational?, Option.some.injEq] at h
    rw [← h]
    cases b <;> rfl
  | null => exact absurd h (by simp [rational?])

theorem beq_of_place {x y : Place} (ha : a.place? = some x) (hb : b.place? = some y) :
    (a == b) = decide (x = y) := by
  rw [beq_eq_same]
  cases a <;> cases b <;> simp_all [same, place?]

/-- **Numbers are equal exactly if they are the same rational number.** -/
theorem beq_iff_rational_eq (ha : a.rational? = some q) (hb : b.rational? = some r) :
    (a == b) = true ↔ q = r := by
  obtain ⟨d, had, rfl⟩ := exists_place_of_rational ha
  obtain ⟨e, hbe, rfl⟩ := exists_place_of_rational hb
  rw [beq_of_place had hbe, decide_eq_true_iff, Place.finite.injEq, Dyadic.toRat_inj]

end Value

end ForwardChaining
