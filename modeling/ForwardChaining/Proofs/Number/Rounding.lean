import Mathlib.Data.Int.Log
import Mathlib.Data.Rat.Floor
import Mathlib.Tactic.FieldSimp
import Mathlib.Tactic.Linarith
import Mathlib.Tactic.NormNum
import Mathlib.Tactic.Positivity
import Mathlib.Tactic.Ring
import ForwardChaining.Number.Shortest

/-!
# Rounding to binary64

`Binary64.nearest` sees a quotient only, `nearest_congr`, and takes a quotient that is in the format to itself,
`nearest_eq_finite`.  So reading a decimal depends on the number that it stands for and not on how many of its zeros
are kept in the exponent, `ofDecimal_congr`; the exponents which `Binary64.ofDecimal` answers without computing are
no exceptions, since what they stand for is beyond the format or closer to zero than any number of it.

That the decimal of fewest digits reads back, `readsBack_shortestOf`, holds of those that were tried because they were
tried, and of the exact one because nothing is left to round.
-/

namespace ForwardChaining

variable {num den num' den' k significand digits : Nat} {e e' exponent : Int} {negative : Bool}

/-! ### Rounding a quotient -/

theorem roundHalfEven_mul_right (hk : 0 < k) : roundHalfEven (num * k) (den * k) = roundHalfEven num den := by
  rw [roundHalfEven, roundHalfEven, Nat.mul_div_mul_right _ _ hk, Nat.mul_mod_mul_right, ← Nat.mul_assoc]
  simp only [Nat.mul_lt_mul_right hk]

theorem roundHalfEven_mul_self (hden : 0 < den) : roundHalfEven (num * den) den = num := by
  rw [roundHalfEven, Nat.mul_div_cancel _ hden, Nat.mul_mod_left]
  exact if_pos hden

theorem roundHalfEven_eq_zero (h : 2 * num < den) : roundHalfEven num den = 0 := by
  rw [roundHalfEven, Nat.div_eq_of_lt (by omega), Nat.mod_eq_of_lt (by omega)]
  exact if_pos h

/-! ### Powers of two on either side -/

theorem two_zpow_eq (e : Int) : (2 : ℚ) ^ e = (2 ^ e.toNat : Nat) / (2 ^ (-e).toNat : Nat) := by
  rcases Int.le_total 0 e with h | h
  · obtain ⟨n, rfl⟩ := Int.eq_ofNat_of_zero_le h
    simp
  · obtain ⟨n, hn⟩ := Int.eq_ofNat_of_zero_le (Int.neg_nonneg_of_nonpos h)
    obtain rfl : e = -(n : Int) := by omega
    simp

theorem scaled_le_iff (num : Nat) (hden : 0 < den) (e : Int) :
    den * 2 ^ e.toNat ≤ num * 2 ^ (-e).toNat ↔ (2 : ℚ) ^ e ≤ num / den := by
  have hden' : (0 : ℚ) < den := by exact_mod_cast hden
  have hpow : (0 : ℚ) < (2 ^ (-e).toNat : Nat) := by positivity
  rw [two_zpow_eq, le_div_iff₀ hden', div_mul_eq_mul_div, div_le_iff₀ hpow, Nat.mul_comm den]
  exact_mod_cast Iff.rfl

namespace Binary64

theorem binaryExponent_eq_log (hnum : 0 < num) (hden : 0 < den) :
    binaryExponent num den = Int.log 2 ((num : ℚ) / den) := by
  have hnum' : (0 : ℚ) < num := by exact_mod_cast hnum
  have hden' : (0 : ℚ) < den := by exact_mod_cast hden
  have hquotient : (0 : ℚ) < (num : ℚ) / den := by positivity
  have hle : ((2 : ℕ) : ℚ) ^ ((num.log2 : Int) - den.log2 - 1) ≤ num / den := by
    have hlow : (2 : ℚ) ^ num.log2 ≤ num := by exact_mod_cast Nat.log2_self_le hnum.ne'
    have hhigh : (den : ℚ) < 2 ^ (den.log2 + 1) := by exact_mod_cast Nat.lt_log2_self
    rw [le_div_iff₀ hden']
    calc ((2 : ℕ) : ℚ) ^ ((num.log2 : Int) - den.log2 - 1) * den
        ≤ (2 : ℚ) ^ ((num.log2 : Int) - den.log2 - 1) * 2 ^ (den.log2 + 1) := by
          push_cast
          exact mul_le_mul_of_nonneg_left hhigh.le (zpow_nonneg (by norm_num) _)
      _ = (2 : ℚ) ^ num.log2 := by
          rw [← zpow_natCast, ← zpow_natCast, ← zpow_add₀ (by norm_num)]
          congr 1
          push_cast
          ring
      _ ≤ num := hlow
  have hlt : (num : ℚ) / den < ((2 : ℕ) : ℚ) ^ ((num.log2 : Int) - den.log2 + 1) := by
    have hlow : (2 : ℚ) ^ den.log2 ≤ den := by exact_mod_cast Nat.log2_self_le hden.ne'
    have hhigh : (num : ℚ) < 2 ^ (num.log2 + 1) := by exact_mod_cast Nat.lt_log2_self
    rw [div_lt_iff₀ hden']
    calc (num : ℚ) < 2 ^ (num.log2 + 1) := hhigh
      _ = (2 : ℚ) ^ ((num.log2 : Int) - den.log2 + 1) * 2 ^ den.log2 := by
          rw [← zpow_natCast, ← zpow_natCast, ← zpow_add₀ (by norm_num)]
          congr 1
          push_cast
          ring
      _ ≤ ((2 : ℕ) : ℚ) ^ ((num.log2 : Int) - den.log2 + 1) * den := by
          push_cast
          exact mul_le_mul_of_nonneg_left hlow (zpow_nonneg (by norm_num) _)
  rw [Int.zpow_le_iff_le_log (by norm_num) hquotient] at hle
  rw [Int.lt_zpow_iff_log_lt (by norm_num) hquotient] at hlt
  have hiff := (scaled_le_iff num hden ((num.log2 : Int) - den.log2)).trans
    (Int.zpow_le_iff_le_log (b := 2) (by norm_num) hquotient)
  rw [binaryExponent]
  simp only [Nat.pow_eq]
  split
  next h =>
    have := hiff.1 h
    omega
  next h =>
    have := mt hiff.2 h
    omega

/-! ### The nearest number -/

theorem nearest_eq (hnum : 0 < num) (hden : 0 < den)
    (he : e = max (Int.log 2 ((num : ℚ) / den) - 52) (-1074)) :
    nearest negative num den =
      ofRounded negative (roundHalfEven (num * 2 ^ (-e).toNat) (den * 2 ^ e.toNat)) e := by
  subst he
  rw [nearest, if_neg hnum.ne', binaryExponent_eq_log hnum hden]
  rfl

@[simp] theorem nearest_zero_left : nearest negative 0 den = zero negative := rfl

theorem nearest_mul_right (hden : 0 < den) (hk : 0 < k) :
    nearest negative (num * k) (den * k) = nearest negative num den := by
  rcases Nat.eq_zero_or_pos num with rfl | hnum
  · simp
  · have hratio : ((num * k : Nat) : ℚ) / (den * k : Nat) = num / den := by
      have hk' : (k : ℚ) ≠ 0 := by exact_mod_cast hk.ne'
      push_cast
      exact mul_div_mul_right _ _ hk'
    rw [nearest_eq (Nat.mul_pos hnum hk) (Nat.mul_pos hden hk) rfl, nearest_eq hnum hden rfl, hratio,
      Nat.mul_right_comm num, Nat.mul_right_comm den, roundHalfEven_mul_right hk]

/-- **The nearest number depends on the quotient only.** -/
theorem nearest_congr (hden : 0 < den) (hden' : 0 < den') (h : (num : ℚ) / den = num' / den') :
    nearest negative num den = nearest negative num' den' := by
  have hcross : num * den' = num' * den := by
    rw [div_eq_div_iff (by exact_mod_cast hden.ne') (by exact_mod_cast hden'.ne')] at h
    exact_mod_cast h
  rw [← nearest_mul_right hden hden', hcross, Nat.mul_comm den, nearest_mul_right hden' hden]

theorem ofRounded_of_areParts (parts : AreParts significand exponent) :
    ofRounded negative significand exponent = finite negative significand exponent parts := by
  have hne : ¬ significand = Nat.pow 2 53 := fun h => absurd parts.1 (by omega)
  rw [ofRounded]
  simp only [if_neg hne]
  exact dif_pos parts

theorem ofRounded_of_le (h : 972 ≤ exponent) : ofRounded negative significand exponent = infinite negative := by
  have hparts (n : Nat) (e : Int) (he : 972 ≤ e) : ¬ AreParts n e := fun hparts => by
    have := hparts.2.2.1
    omega
  rw [ofRounded]
  by_cases hcarry : significand = Nat.pow 2 53
  · simp only [if_pos hcarry]
    exact dif_neg (hparts _ _ (by omega))
  · simp only [if_neg hcarry]
    exact dif_neg (hparts _ _ h)

theorem log_mul_zpow (hpos : 0 < significand) :
    Int.log 2 ((significand : ℚ) * 2 ^ exponent) = significand.log2 + exponent := by
  have hpos' : (0 : ℚ) < significand := by exact_mod_cast hpos
  have hpow : (0 : ℚ) < (2 : ℚ) ^ exponent := zpow_pos (by norm_num) _
  have hvalue : (0 : ℚ) < (significand : ℚ) * 2 ^ exponent := mul_pos hpos' hpow
  have hlow : ((2 : ℕ) : ℚ) ^ ((significand.log2 : Int) + exponent) ≤ significand * 2 ^ exponent := by
    have hle : (2 : ℚ) ^ significand.log2 ≤ significand := by exact_mod_cast Nat.log2_self_le hpos.ne'
    push_cast
    rw [zpow_add₀ (by norm_num), zpow_natCast]
    exact mul_le_mul_of_nonneg_right hle hpow.le
  have hhigh : (significand : ℚ) * 2 ^ exponent < ((2 : ℕ) : ℚ) ^ ((significand.log2 : Int) + exponent + 1) := by
    have hlt : (significand : ℚ) < 2 ^ (significand.log2 + 1) := by exact_mod_cast Nat.lt_log2_self
    push_cast
    rw [show (significand.log2 : Int) + exponent + 1 = ((significand.log2 + 1 : Nat) : Int) + exponent by
      push_cast; ring, zpow_add₀ (by norm_num), zpow_natCast]
    exact mul_lt_mul_of_pos_right hlt hpow
  rw [Int.zpow_le_iff_le_log (by norm_num) hvalue] at hlow
  rw [Int.lt_zpow_iff_log_lt (by norm_num) hvalue] at hhigh
  omega

theorem exponent_eq_of_areParts (parts : AreParts significand exponent) (hpos : 0 < significand) :
    exponent = max ((significand.log2 : Int) + exponent - 52) (-1074) := by
  obtain ⟨hlt, hleast, -, hnormal⟩ := parts
  have hlog : significand.log2 < 53 := (Nat.log2_lt hpos.ne').2 hlt
  rcases hnormal with hnormal | rfl
  · have : 52 ≤ significand.log2 := (Nat.le_log2 hpos.ne').2 hnormal
    omega
  · omega

/-- **A number of the format is the nearest to itself.** -/
theorem nearest_eq_finite (parts : AreParts significand exponent) (hden : 0 < den)
    (h : (num : ℚ) / den = significand * 2 ^ exponent) :
    nearest negative num den = finite negative significand exponent parts := by
  rcases Nat.eq_zero_or_pos significand with rfl | hpos
  · have hnum : num = 0 := by simpa [hden.ne'] using h
    obtain rfl : exponent = -1074 := parts.2.2.2.resolve_left (by decide)
    rw [hnum, nearest_zero_left, zero]
  · have hpow : 0 < 2 ^ (-exponent).toNat := Nat.two_pow_pos _
    have hratio : ((significand * 2 ^ exponent.toNat : Nat) : ℚ) / (2 ^ (-exponent).toNat : Nat) =
        significand * 2 ^ exponent := by
      rw [two_zpow_eq]
      push_cast
      ring
    have hchosen := exponent_eq_of_areParts parts hpos
    rw [← log_mul_zpow hpos, ← hratio] at hchosen
    rw [nearest_congr hden hpow (h.trans hratio.symm),
      nearest_eq (Nat.mul_pos hpos (Nat.two_pow_pos _)) hpow hchosen, Nat.mul_assoc,
      Nat.mul_comm (2 ^ exponent.toNat), roundHalfEven_mul_self (by positivity), ofRounded_of_areParts parts]

theorem nearest_eq_infinite (hden : 0 < den) (h : (2 : ℚ) ^ (1024 : Int) ≤ num / den) :
    nearest negative num den = infinite negative := by
  have hquotient : (0 : ℚ) < (num : ℚ) / den := lt_of_lt_of_le (zpow_pos (by norm_num) _) h
  have hnum : 0 < num := by
    rcases Nat.eq_zero_or_pos num with rfl | hnum
    · simp at hquotient
    · exact hnum
  have hlog : (1024 : Int) ≤ Int.log 2 ((num : ℚ) / den) :=
    (Int.zpow_le_iff_le_log (b := 2) (by norm_num) hquotient).1 (by exact_mod_cast h)
  rw [nearest_eq hnum hden rfl, ofRounded_of_le (by omega)]

theorem two_mul_lt_of_div_lt (hden : 0 < den) (h : (num : ℚ) / den < 2 ^ (-(k + 1 : Int))) :
    2 * (num * 2 ^ k) < den := by
  have hden' : (0 : ℚ) < den := by exact_mod_cast hden
  have hpow : (0 : ℚ) < 2 ^ (k + 1) := by positivity
  rw [zpow_neg, div_lt_iff₀ hden', ← div_eq_inv_mul] at h
  rw [show ((2 : ℚ) ^ (k + 1 : Int)) = 2 ^ (k + 1) from zpow_natCast 2 (k + 1), lt_div_iff₀ hpow] at h
  have hlt : num * 2 ^ (k + 1) < den := by exact_mod_cast h
  rw [Nat.pow_succ, ← Nat.mul_assoc] at hlt
  omega

theorem nearest_eq_zero (hden : 0 < den) (h : (num : ℚ) / den < (2 : ℚ) ^ (-1075 : Int)) :
    nearest negative num den = zero negative := by
  rcases Nat.eq_zero_or_pos num with rfl | hnum
  · rfl
  have hquotient : (0 : ℚ) < (num : ℚ) / den := by positivity
  have hlog : Int.log 2 ((num : ℚ) / den) < -1075 :=
    (Int.lt_zpow_iff_log_lt (b := 2) (by norm_num) hquotient).1 (by exact_mod_cast h)
  have hleast : (-1074 : Int) = max (Int.log 2 ((num : ℚ) / den) - 52) (-1074) := by omega
  have hup : (-(-1074 : Int)).toNat = 1074 := rfl
  have hdown : (-1074 : Int).toNat = 0 := rfl
  rw [nearest_eq hnum hden hleast, hup, hdown, Nat.pow_zero, Nat.mul_one,
    roundHalfEven_eq_zero (two_mul_lt_of_div_lt hden h), ofRounded_of_areParts areParts_zero, zero]

end Binary64

/-! ### Decimals -/

/-- The number that a decimal stands for. -/
def Decimal.value (d : Decimal) : ℚ := d.digits * 10 ^ d.exponent

theorem ten_zpow_eq (e : Int) : (10 : ℚ) ^ e = (10 ^ e.toNat : Nat) / (10 ^ (-e).toNat : Nat) := by
  rcases Int.le_total 0 e with h | h
  · obtain ⟨n, rfl⟩ := Int.eq_ofNat_of_zero_le h
    simp
  · obtain ⟨n, hn⟩ := Int.eq_ofNat_of_zero_le (Int.neg_nonneg_of_nonpos h)
    obtain rfl : e = -(n : Int) := by omega
    simp

namespace Decimal

variable {d d' : Decimal}

theorem ratio_eq_value (d : Decimal) :
    ((d.digits * 10 ^ d.exponent.toNat : Nat) : ℚ) / (10 ^ (-d.exponent).toNat : Nat) = d.value := by
  rw [value, ten_zpow_eq]
  push_cast
  ring

theorem value_strip (n : Nat) (d : Decimal) : (d.strip n).value = d.value := by
  induction n generalizing d with
  | zero => rfl
  | succ n ih =>
    rw [strip]
    split
    next h =>
      obtain ⟨k, hk⟩ := Nat.dvd_of_mod_eq_zero h
      rw [ih, value, value, hk, Nat.mul_div_cancel_left _ (by decide), zpow_add₀ (by norm_num)]
      push_cast
      ring
    next => rfl

theorem value_lt_of_exponent (h : d.exponent + d.digits.log2 < -330) : d.value < (2 : ℚ) ^ (-1075 : Int) := by
  have hpow : (0 : ℚ) < 10 ^ d.exponent := zpow_pos (by norm_num) _
  have hdigits : (d.digits : ℚ) < 10 ^ (d.digits.log2 + 1) := by
    have hlt : d.digits < 2 ^ (d.digits.log2 + 1) := Nat.lt_log2_self
    have hle : 2 ^ (d.digits.log2 + 1) ≤ 10 ^ (d.digits.log2 + 1) := Nat.pow_le_pow_left (by decide) _
    exact_mod_cast lt_of_lt_of_le hlt hle
  have hleast : (10 : ℚ) ^ (-330 : Int) ≤ 2 ^ (-1075 : Int) := by
    have hle : 2 ^ 1075 ≤ 10 ^ 330 := by decide +kernel
    rw [zpow_neg, zpow_neg]
    exact inv_anti₀ (zpow_pos (by norm_num) _) (by exact_mod_cast hle)
  calc d.value < 10 ^ (d.digits.log2 + 1) * 10 ^ d.exponent := mul_lt_mul_of_pos_right hdigits hpow
    _ = 10 ^ (((d.digits.log2 + 1 : Nat) : Int) + d.exponent) := by
        rw [zpow_add₀ (by norm_num), zpow_natCast]
    _ ≤ 10 ^ (-330 : Int) := zpow_le_zpow_right₀ (by norm_num) (by push_cast; omega)
    _ ≤ 2 ^ (-1075 : Int) := hleast

theorem le_value_of_exponent (hpos : 0 < d.digits) (h : 310 < d.exponent) : (2 : ℚ) ^ (1024 : Int) ≤ d.value := by
  have hdigits : (1 : ℚ) ≤ d.digits := by exact_mod_cast hpos
  have hgreatest : (2 : ℚ) ^ (1024 : Int) ≤ 10 ^ (311 : Int) := by
    have hle : 2 ^ 1024 ≤ 10 ^ 311 := by decide +kernel
    exact_mod_cast hle
  calc (2 : ℚ) ^ (1024 : Int) ≤ 10 ^ (311 : Int) := hgreatest
    _ ≤ 10 ^ d.exponent := zpow_le_zpow_right₀ (by norm_num) (by omega)
    _ ≤ d.value := le_mul_of_one_le_left (zpow_nonneg (by norm_num) _) hdigits

/-- **Reading a decimal is rounding the number that it stands for**, whatever the exponent. -/
theorem ofDecimal_eq_nearest (negative : Bool) (d : Decimal) :
    Binary64.ofDecimal negative d.digits d.exponent =
      .nearest negative (d.digits * 10 ^ d.exponent.toNat) (10 ^ (-d.exponent).toNat) := by
  have hden : 0 < 10 ^ (-d.exponent).toNat := Nat.pow_pos (by decide)
  rw [Binary64.ofDecimal]
  split
  next h => rw [h, Nat.zero_mul, Binary64.nearest_zero_left]
  split
  next hpos h => rw [Binary64.nearest_eq_infinite hden (d.ratio_eq_value ▸ le_value_of_exponent (by omega) h)]
  split
  next h => rw [Binary64.nearest_eq_zero hden (d.ratio_eq_value ▸ value_lt_of_exponent h)]
  next => rfl

/-- **Decimals that stand for one number are read as one.** -/
theorem ofDecimal_congr (h : d.value = d'.value) :
    Binary64.ofDecimal negative d.digits d.exponent = .ofDecimal negative d'.digits d'.exponent := by
  rw [ofDecimal_eq_nearest, ofDecimal_eq_nearest]
  exact Binary64.nearest_congr (Nat.pow_pos (by decide)) (Nat.pow_pos (by decide))
    ((ratio_eq_value d).trans (h.trans (ratio_eq_value d').symm))

theorem ofDecimal_eq_finite (parts : AreParts significand exponent) (h : d.value = significand * 2 ^ exponent) :
    Binary64.ofDecimal negative d.digits d.exponent = .finite negative significand exponent parts := by
  rw [ofDecimal_eq_nearest]
  exact Binary64.nearest_eq_finite parts (Nat.pow_pos (by decide)) ((ratio_eq_value d).trans h)

theorem value_ofBinary (significand : Nat) (exponent : Int) :
    (ofBinary significand exponent).value = significand * 2 ^ exponent := by
  rw [ofBinary]
  simp only [Nat.pow_eq]
  split
  next h =>
    obtain ⟨n, rfl⟩ := Int.eq_ofNat_of_zero_le h
    simp [value]
  next h =>
    obtain ⟨n, hn⟩ := Int.eq_ofNat_of_zero_le (a := -exponent) (by omega)
    obtain rfl : exponent = -(n : Int) := by omega
    have hten : (10 : ℚ) ^ (-(n : Int)) = ((5 : ℚ) ^ n)⁻¹ * 2 ^ (-(n : Int)) := by
      rw [zpow_neg, zpow_neg, zpow_natCast, zpow_natCast, ← mul_inv, ← mul_pow]
      norm_num
    simp [value, hten, mul_assoc]

end Decimal

/-- **The decimal of fewest digits reads back.** -/
theorem Binary64.readsBack_shortestOf (negative : Bool) (parts : AreParts significand exponent) :
    (finite negative significand exponent parts).ReadsBack
      ((finite negative significand exponent parts).shortestOf significand exponent) := by
  rw [shortestOf]
  cases hfind : (shortCandidates _ _).find? _ with
  | some d => simpa using List.find?_some hfind
  | none => exact Decimal.ofDecimal_eq_finite parts (Decimal.value_ofBinary significand exponent)

end ForwardChaining
