import Mathlib.Algebra.Ring.Nat
import Mathlib.Data.List.Chain
import Mathlib.Tactic.Common
import ForwardChaining.Json.Quoted
import ForwardChaining.Proofs.Text.Ascii

/-!
# Reading what was quoted

A character is held as one code unit or, beyond the first 65536 code points, as a pair of two halves; a surrogate is a
half by itself, `unitsOf`.  An escape of four figures is one unit, so that what stands between quotes holds the units of
the text, `codeUnits_escaped`.  From them every code point is taken back unless it is a first half with a second half
behind it, which are joined.  So a text is read back if no two of its code points are halves of a pair in this way
(`Unpaired`), and no other text is ever read, `unquote?_quoted` and `unpaired_of_unquote?`.  All of a quoted text is
printable ASCII, `arePlain_quoted`.
-/

namespace ForwardChaining

variable {c : Char} {n : Nat}

namespace Text

/-! ### Hexadecimal figures -/

theorem hexValue?_hexFigure (h : n < 16) : hexValue? (hexFigure n) = some n :=
  (by decide : ∀ n < 16, hexValue? (hexFigure n) = some n) n h

theorem hexNumber?_hexFigures (w n v : Nat) (cs : List Char) :
    hexNumber? v (hexFigures w n ++ cs) = hexNumber? (16 ^ w * v + n % 16 ^ w) cs := by
  induction w generalizing n cs with
  | zero => simp [hexFigures, Nat.mod_one]
  | succ w ih =>
    have hmod : n % 16 ^ (w + 1) = n % 16 + 16 * (n / 16 % 16 ^ w) := by
      rw [Nat.pow_succ, Nat.mul_comm, Nat.mod_mul]
    have hvalue : 16 * (16 ^ w * v + n / 16 % 16 ^ w) + n % 16 = 16 ^ (w + 1) * v + n % 16 ^ (w + 1) := by
      have hpow : 16 ^ (w + 1) * v = 16 * (16 ^ w * v) := by rw [Nat.pow_succ, Nat.mul_comm (16 ^ w), Nat.mul_assoc]
      rw [hmod, hpow]
      omega
    rw [hexFigures, List.append_assoc, ih, List.singleton_append, hexNumber?,
      hexValue?_hexFigure (Nat.mod_lt n (by decide)), Option.bind_some, hvalue]

end Text

namespace Json

/-! ### Code units -/

theorem toNat_bounds (c : Char) : c.toNat < 0xD800 ∨ 0xDFFF < c.toNat ∧ c.toNat < 0x110000 := c.valid

/-- The code units that hold a character. -/
def unitsOfChar (c : Char) : List Nat :=
  if c.toNat < 0x10000 then [c.toNat]
  else [0xD800 + (c.toNat - 0x10000) / 0x400, 0xDC00 + (c.toNat - 0x10000) % 0x400]

/-- The code units that hold a code point. -/
def unitsOf : CodePoint → List Nat
  | .char c => unitsOfChar c
  | c => [c.toNat]

theorem codeUnits_unitEscape (h : n < 0x10000) (cs : List Char) :
    codeUnits (unitEscape n ++ cs) = (codeUnits cs).map fun (units, rest) => (n :: units, rest) := by
  have hnumber : Text.hexNumber? 0 (Text.hexFigures 4 n) = some n := by
    have hfigures := Text.hexNumber?_hexFigures 4 n 0 []
    have hmod : n % 16 ^ 4 = n := Nat.mod_eq_of_lt h
    rwa [List.append_nil, Nat.mul_zero, Nat.zero_add, hmod] at hfigures
  obtain ⟨c₁, c₂, c₃, c₄, hfour⟩ : ∃ c₁ c₂ c₃ c₄, Text.hexFigures 4 n = [c₁, c₂, c₃, c₄] := ⟨_, _, _, _, rfl⟩
  rw [hfour] at hnumber
  rw [unitEscape, hfour]
  simp only [List.cons_append, List.nil_append]
  rw [codeUnits, hnumber, Option.bind_some]

theorem codeUnits_escapeLetter {letter : Char} (hletter : letter ≠ 'u') (h : escapeLetter? letter = some c)
    (cs : List Char) :
    codeUnits ('\\' :: letter :: cs) = (codeUnits cs).map fun (units, rest) => (c.toNat :: units, rest) := by
  rw [codeUnits]
  · rw [h, Option.bind_some]
  · rintro c₁ c₂ c₃ c₄ rest rfl
    exact absurd rfl hletter

theorem codeUnits_self (hplain : IsPlain c) (hquote : c ≠ '"') (hbackslash : c ≠ '\\') (cs : List Char) :
    codeUnits (c :: cs) = (codeUnits cs).map fun (units, rest) => (c.toNat :: units, rest) := by
  have hlow : ¬ (c.toNat < 0x20 ∨ c = '\\') := not_or.2 ⟨Nat.not_lt.2 hplain.1, hbackslash⟩
  rw [codeUnits, if_neg hlow]
  all_goals
    intros
    simp_all

theorem codeUnits_escapedChar (c : Char) (cs : List Char) :
    codeUnits (escapedChar c ++ cs) = (codeUnits cs).map fun (units, rest) => (unitsOfChar c ++ units, rest) := by
  rw [escapedChar]
  split_ifs with hquote hbackslash hfeed hreturn htab hback hform hplain hsingle
  · subst hquote
    exact codeUnits_escapeLetter (by decide) rfl cs
  · subst hbackslash
    exact codeUnits_escapeLetter (by decide) rfl cs
  · subst hfeed
    exact codeUnits_escapeLetter (by decide) rfl cs
  · subst hreturn
    exact codeUnits_escapeLetter (by decide) rfl cs
  · subst htab
    exact codeUnits_escapeLetter (by decide) rfl cs
  · subst hback
    exact codeUnits_escapeLetter (by decide) rfl cs
  · subst hform
    exact codeUnits_escapeLetter (by decide) rfl cs
  · have hunits : unitsOfChar c = [c.toNat] := if_pos (by omega)
    rw [hunits]
    exact codeUnits_self hplain hquote hbackslash cs
  · have hunits : unitsOfChar c = [c.toNat] := if_pos hsingle
    rw [hunits]
    exact codeUnits_unitEscape hsingle cs
  · have hunits : unitsOfChar c = [0xD800 + (c.toNat - 0x10000) / 0x400, 0xDC00 + (c.toNat - 0x10000) % 0x400] :=
      if_neg hsingle
    have hbounds := toNat_bounds c
    rw [hunits, List.append_assoc, codeUnits_unitEscape (by omega), codeUnits_unitEscape (by omega), Option.map_map]
    rfl

theorem CodePoint.toNat_surrogate_lt (n : Fin 0x800) : (CodePoint.surrogate n).toNat < 0x10000 := by
  rw [CodePoint.toNat]
  omega

theorem codeUnits_escaped (c : CodePoint) (cs : List Char) :
    codeUnits (escaped c ++ cs) = (codeUnits cs).map fun (units, rest) => (unitsOf c ++ units, rest) := by
  cases c with
  | char c => exact codeUnits_escapedChar c cs
  | surrogate n => exact codeUnits_unitEscape (CodePoint.toNat_surrogate_lt n) cs

theorem codeUnits_quoted (s : CodeText) (rest : List Char) :
    codeUnits (s.flatMap escaped ++ '"' :: rest) = some (s.flatMap unitsOf, rest) := by
  induction s with
  | nil => simp [codeUnits]
  | cons c s ih => rw [List.flatMap_cons, List.append_assoc, codeUnits_escaped, ih, List.flatMap_cons]; rfl

/-! ### Code points -/

/-- A first half of a surrogate pair stands before its second half. -/
def Pair (x y : CodePoint) : Prop := isFirstHalf x.toNat ∧ isSecondHalf y.toNat

instance (x y : CodePoint) : Decidable (Pair x y) := inferInstanceAs (Decidable (_ ∧ _))

/-- Nowhere in a text does a first half of a surrogate pair stand directly before a second half. -/
def Unpaired (s : CodeText) : Prop := s.IsChain fun x y => ¬ Pair x y

instance (s : CodeText) : Decidable (Unpaired s) := inferInstanceAs (Decidable (List.IsChain _ s))

theorem not_isHalf (c : Char) : isFirstHalf c.toNat = false ∧ isSecondHalf c.toNat = false := by
  have hbounds := toNat_bounds c
  simp only [isFirstHalf, isSecondHalf, Bool.and_eq_false_iff, decide_eq_false_iff_not]
  omega

theorem not_pair_char_left (c : Char) (y : CodePoint) : ¬ Pair (.char c) y := fun h => by
  have hfirst := h.1
  rw [CodePoint.toNat, (not_isHalf c).1] at hfirst
  cases hfirst

@[simp] theorem unpaired_codes (s : String) : Unpaired (Text.codes s) :=
  (List.isChain_map _).2 (List.Pairwise.isChain (List.pairwise_of_forall fun c d => not_pair_char_left c d))

theorem ofNat_toNat (x : CodePoint) : CodePoint.ofNat x.toNat = x := by
  cases x with
  | char c =>
    have hbounds := toNat_bounds c
    have hrange : ¬ (0xD800 ≤ c.toNat ∧ c.toNat < 0xE000) := by omega
    rw [CodePoint.toNat, CodePoint.ofNat, dif_neg hrange, Char.ofNat_toNat]
  | surrogate n =>
    have hrange : 0xD800 ≤ 0xD800 + (n : Nat) ∧ 0xD800 + (n : Nat) < 0xE000 := by omega
    rw [CodePoint.toNat, CodePoint.ofNat, dif_pos hrange]
    simp

/-- A unit that is no first half with a second half behind it is a code point by itself. -/
theorem codePoints_cons {n : Nat} {units : List Nat}
    (h : ∀ m ∈ units.head?, ¬ (isFirstHalf n ∧ isSecondHalf m)) :
    codePoints (n :: units) = .ofNat n :: codePoints units := by
  cases units with
  | nil => simp [codePoints]
  | cons m units =>
    have hpair : ¬ (isFirstHalf n && isSecondHalf m) = true := by simpa using h m rfl
    rw [codePoints, if_neg hpair]

theorem codePoints_unitsOfChar (c : Char) (units : List Nat) :
    codePoints (unitsOfChar c ++ units) = .char c :: codePoints units := by
  have hbounds := toNat_bounds c
  rw [unitsOfChar]
  split
  next h =>
    have hfirst (m : Nat) : ¬ (isFirstHalf c.toNat ∧ isSecondHalf m) := by simp [(not_isHalf c).1]
    rw [List.singleton_append, codePoints_cons fun m _ => hfirst m]
    exact congrArg (· :: codePoints units) (ofNat_toNat (.char c))
  next h =>
    have hfirst : isFirstHalf (0xD800 + (c.toNat - 0x10000) / 0x400) = true := by
      simp only [isFirstHalf, Bool.and_eq_true, decide_eq_true_eq]
      omega
    have hsecond : isSecondHalf (0xDC00 + (c.toNat - 0x10000) % 0x400) = true := by
      simp only [isSecondHalf, Bool.and_eq_true, decide_eq_true_eq]
      omega
    have hjoined : 0x10000 + (0xD800 + (c.toNat - 0x10000) / 0x400 - 0xD800) * 0x400
        + (0xDC00 + (c.toNat - 0x10000) % 0x400 - 0xDC00) = c.toNat := by omega
    simp only [List.cons_append, List.nil_append, codePoints, hfirst, hsecond, Bool.and_self, if_true, hjoined,
      Char.ofNat_toNat]

theorem isSecondHalf_of_mem_head? {s : CodeText} {m : Nat} (hm : m ∈ (s.flatMap unitsOf).head?)
    (hsecond : isSecondHalf m = true) : ∃ y ∈ s.head?, isSecondHalf y.toNat = true := by
  cases s with
  | nil => cases hm
  | cons y s =>
    refine ⟨y, rfl, ?_⟩
    cases y with
    | char c =>
      rw [List.flatMap_cons, unitsOf, unitsOfChar] at hm
      split at hm
      next =>
        obtain rfl := Option.mem_some.1 hm
        exact hsecond
      next h =>
        obtain rfl := Option.mem_some.1 hm
        have hbounds := toNat_bounds c
        simp only [isSecondHalf, Bool.and_eq_true, decide_eq_true_eq] at hsecond
        omega
    | surrogate n =>
      obtain rfl := Option.mem_some.1 hm
      exact hsecond

theorem codePoints_flatMap {s : CodeText} (h : Unpaired s) : codePoints (s.flatMap unitsOf) = s := by
  induction s with
  | nil => rfl
  | cons x s ih =>
    obtain ⟨hhead, htail⟩ := List.isChain_cons.1 h
    rw [List.flatMap_cons]
    cases x with
    | char c => rw [unitsOf, codePoints_unitsOfChar, ih htail]
    | surrogate n =>
      have halone : ∀ m ∈ (s.flatMap unitsOf).head?,
          ¬ (isFirstHalf (CodePoint.surrogate n).toNat ∧ isSecondHalf m) := fun m hm ⟨hfirst, hsecond⟩ => by
        obtain ⟨y, hy, hsecond⟩ := isSecondHalf_of_mem_head? hm hsecond
        exact hhead y hy ⟨hfirst, hsecond⟩
      have hunits : unitsOf (.surrogate n) = [(CodePoint.surrogate n).toNat] := rfl
      rw [hunits, List.singleton_append, codePoints_cons halone, ih htail, ofNat_toNat]

/-- **A quoted text without pairs is read back.** -/
theorem unquote?_quoted {s : CodeText} (h : Unpaired s) (rest : List Char) :
    unquote? (s.flatMap escaped ++ '"' :: rest) = some (s, rest) := by
  simp only [unquote?, codeUnits_quoted, Option.map_some, codePoints_flatMap h]

theorem toNat_ofNat_or (n : Nat) : (CodePoint.ofNat n).toNat = n ∨ ∃ c, CodePoint.ofNat n = .char c := by
  rw [CodePoint.ofNat]
  split
  next hrange => exact .inl (Nat.add_sub_cancel' hrange.1)
  next => exact .inr ⟨_, rfl⟩

theorem isFirstHalf_of_ofNat (h : isFirstHalf (CodePoint.ofNat n).toNat = true) : isFirstHalf n = true := by
  obtain heq | ⟨c, hc⟩ := toNat_ofNat_or n
  · rwa [heq] at h
  · rw [hc, CodePoint.toNat, (not_isHalf c).1] at h
    cases h

theorem isSecondHalf_of_ofNat (h : isSecondHalf (CodePoint.ofNat n).toNat = true) : isSecondHalf n = true := by
  obtain heq | ⟨c, hc⟩ := toNat_ofNat_or n
  · rwa [heq] at h
  · rw [hc, CodePoint.toNat, (not_isHalf c).2] at h
    cases h

theorem isSecondHalf_of_mem_head?_codePoints {units : List Nat} {y : CodePoint} (hy : y ∈ (codePoints units).head?)
    (hsecond : isSecondHalf y.toNat = true) : ∃ m ∈ units.head?, isSecondHalf m = true := by
  match units with
  | [] => cases hy
  | [n] =>
    rw [codePoints] at hy
    obtain rfl := Option.mem_some.1 hy
    exact ⟨n, rfl, isSecondHalf_of_ofNat hsecond⟩
  | first :: second :: rest =>
    rw [codePoints] at hy
    split at hy <;> obtain rfl := Option.mem_some.1 hy
    next =>
      rw [CodePoint.toNat, (not_isHalf _).2] at hsecond
      cases hsecond
    next => exact ⟨first, rfl, isSecondHalf_of_ofNat hsecond⟩

theorem unpaired_codePoints (units : List Nat) : Unpaired (codePoints units) := by
  fun_induction codePoints units with
  | case1 => exact .nil
  | case2 first second rest hpair ih => exact List.isChain_cons.2 ⟨fun y _ => not_pair_char_left _ y, ih⟩
  | case3 first second rest hpair ih =>
    refine List.isChain_cons.2 ⟨fun y hy h => ?_, ih⟩
    obtain ⟨m, hm, hsecond⟩ := isSecondHalf_of_mem_head?_codePoints hy h.2
    obtain rfl := Option.mem_some.1 hm
    exact hpair (Bool.and_eq_true _ _ ▸ ⟨isFirstHalf_of_ofNat h.1, hsecond⟩)
  | case4 n => exact .singleton _

/-- **A text that was read has no pairs.** -/
theorem unpaired_of_unquote? {cs rest : List Char} {s : CodeText} (h : unquote? cs = some (s, rest)) : Unpaired s := by
  obtain ⟨⟨units, rest'⟩, -, heq⟩ := Option.map_eq_some_iff.1 h
  cases heq
  exact unpaired_codePoints units

/-! ### Printable ASCII -/

theorem arePlain_unitEscape (n : Nat) : ArePlain (unitEscape n) :=
  .cons (by decide) (.cons (by decide) (Text.arePlain_hexFigures 4 n))

theorem arePlain_escapedChar (c : Char) : ArePlain (escapedChar c) := by
  rw [escapedChar]
  split_ifs with hquote hbackslash hfeed hreturn htab hback hform hplain hsingle
  iterate 7
    · decide
  · exact .cons hplain nofun
  · exact arePlain_unitEscape _
  · exact (arePlain_unitEscape _).append (arePlain_unitEscape _)

theorem arePlain_escaped (c : CodePoint) : ArePlain (escaped c) := by
  cases c with
  | char c => exact arePlain_escapedChar c
  | surrogate n => exact arePlain_unitEscape _

/-- **A quoted text is printable ASCII.** -/
theorem arePlain_quoted (s : CodeText) : ArePlain (quoted s) := by
  have hescaped : ArePlain (s.flatMap escaped) := fun c hc => by
    obtain ⟨d, -, h⟩ := List.mem_flatMap.1 hc
    exact arePlain_escaped d c h
  exact (ArePlain.cons (by decide) hescaped).append (by decide)

end Json

end ForwardChaining
