import ForwardChaining.Number.Fixed
import ForwardChaining.Number.Numeral
import ForwardChaining.Proofs.Number.Rounding

/-!
# Reading what was written of a number

A numeral is a whole part, a fraction and an exponent, of which the last two may be missing.  What it is read as can
be said from these three, `unsignedNumeral?_whole`, `unsignedNumeral?_positional` and `unsignedNumeral?_scientific`,
as long as it is not followed by something that goes on with it.  Each layout of a decimal is one of these forms, with
the figures cut at a place for which the exponent makes up, so the number is read back, `numeral?_int` and
`numeral?_real`.
-/

namespace ForwardChaining

variable {cs whole fraction size rest : List Char} {c : Char} {n : Nat} {negative : Bool}

/-! ### Figures -/

/-- Figures and nothing else. -/
def AreFigures (cs : List Char) : Prop := ∀ c ∈ cs, isFigure c = true

/-- A text that does not begin with a figure. -/
def EndsFigures (rest : List Char) : Prop := ∀ c ∈ rest.head?, isFigure c = false

/-- A text that nothing of a numeral can be taken from. -/
def EndsNumeral (rest : List Char) : Prop :=
  ∀ c ∈ rest.head?, isFigure c = false ∧ c ≠ '.' ∧ c ≠ 'e' ∧ c ≠ 'E'

/-- The figures before a fraction: some, and no superfluous zero before them. -/
structure IsWhole (cs : List Char) : Prop where
  ne_nil : cs ≠ []
  areFigures : AreFigures cs
  eq_zero : cs.head? = some '0' → cs = ['0']

theorem EndsNumeral.endsFigures (h : EndsNumeral rest) : EndsFigures rest := fun c hc => (h c hc).1

theorem AreFigures.append {ds : List Char} (hcs : AreFigures cs) (hds : AreFigures ds) : AreFigures (cs ++ ds) :=
  fun c hc => (List.mem_append.1 hc).elim (hcs c) (hds c)

theorem areFigures_replicate_zero (k : Nat) : AreFigures (List.replicate k '0') := fun _ hc =>
  (List.eq_of_mem_replicate hc) ▸ by decide

theorem areFigures_toDigits (n : Nat) : AreFigures (Nat.toDigits 10 n) := fun c hc => by
  have hdigit := Char.isDigit_iff_toNat.1 (Nat.isDigit_of_mem_toDigits (by decide) (by decide) hc)
  simpa [isFigure] using hdigit

theorem figures_append (hcs : AreFigures cs) (hrest : EndsFigures rest) : figures (cs ++ rest) = (cs, rest) := by
  rw [figures, List.takeWhile_append_of_pos hcs, List.dropWhile_append_of_pos hcs]
  cases rest with
  | nil => simp
  | cons c rest => simp [hrest c rfl]

theorem valueOfFigures_eq_ofDigitChars (v : Nat) (cs : List Char) :
    valueOfFigures v cs = Nat.ofDigitChars 10 cs v := by
  induction cs generalizing v with
  | nil => rfl
  | cons c cs ih => exact ih _

theorem valueOfFigures_append (v : Nat) (cs ds : List Char) :
    valueOfFigures v (cs ++ ds) = valueOfFigures (valueOfFigures v cs) ds := by
  simp only [valueOfFigures_eq_ofDigitChars, Nat.ofDigitChars_append]

@[simp] theorem valueOfFigures_toDigits (n : Nat) : valueOfFigures 0 (Nat.toDigits 10 n) = n := by
  rw [valueOfFigures_eq_ofDigitChars, Nat.ofDigitChars_toDigits (by decide) (by decide)]

@[simp] theorem valueOfFigures_replicate_zero (v k : Nat) :
    valueOfFigures v (List.replicate k '0') = 10 ^ k * v := by
  rw [valueOfFigures_eq_ofDigitChars, Nat.ofDigitChars_replicate_zero]

theorem head?_toDigits_ne_zero (hpos : 0 < n) : (Nat.toDigits 10 n).head? ≠ some '0' := by
  induction n using Nat.strongRecOn with
  | ind n ih =>
    rcases Nat.lt_or_ge n 10 with hlt | hge
    · rw [Nat.toDigits_of_lt_base hlt]
      exact (by decide : ∀ n < 10, 0 < n → [n.digitChar].head? ≠ some '0') n hlt hpos
    · have hdiv : 0 < n / 10 := Nat.div_pos hge (by decide)
      rw [← Nat.div_add_mod n 10,
        ← Nat.toDigits_append_toDigits (by decide) hdiv (Nat.mod_lt n (by decide)), List.head?_append_of_ne_nil]
      · exact ih (n / 10) (Nat.div_lt_self hpos (by decide)) hdiv
      · exact Nat.toDigits_ne_nil

theorem isWhole_toDigits (n : Nat) : IsWhole (Nat.toDigits 10 n) where
  ne_nil := Nat.toDigits_ne_nil
  areFigures := areFigures_toDigits n
  eq_zero h := by
    rcases Nat.eq_zero_or_pos n with rfl | hpos
    · rfl
    · exact absurd h (head?_toDigits_ne_zero hpos)

/-! ### The parts of a numeral -/

theorem wholeFigures_append (hcs : IsWhole cs) (hrest : EndsFigures rest) :
    wholeFigures (cs ++ rest) = (cs, rest) := by
  obtain ⟨c, cs, rfl⟩ := List.exists_cons_of_ne_nil hcs.ne_nil
  by_cases hzero : c = '0'
  · subst hzero
    obtain rfl : cs = [] := by simpa using hcs.eq_zero rfl
    rfl
  · rw [← figures_append hcs.areFigures hrest, wholeFigures]
    rintro _ ⟨⟩
    exact hzero rfl

theorem fractionFigures_point (hfraction : AreFigures fraction) (hne : fraction ≠ []) (hrest : EndsFigures rest) :
    fractionFigures ('.' :: (fraction ++ rest)) = (fraction, rest) := by
  rw [fractionFigures, figures_append hfraction hrest]
  cases fraction with
  | nil => exact absurd rfl hne
  | cons c cs => rfl

theorem fractionFigures_of_ne (h : rest.head? ≠ some '.') : fractionFigures rest = ([], rest) := by
  rw [fractionFigures]
  rintro cs rfl
  exact h rfl

theorem exponent?_of_ne (h : ∀ c ∈ rest.head?, c ≠ 'e' ∧ c ≠ 'E') : exponent? rest = (none, rest) := by
  cases rest with
  | nil => rfl
  | cons c cs => exact if_neg (not_or.2 (h c rfl))

/-- An integer as its sign tells. -/
def signed (negative : Bool) (n : Nat) : Int := if negative then -(n : Int) else n

theorem exponent?_signed (hsize : AreFigures size) (hne : size ≠ []) (hrest : EndsFigures rest) :
    exponent? ('e' :: (if negative then '-' else '+') :: (size ++ rest)) =
      (some (signed negative (valueOfFigures 0 size)), rest) := by
  have hsign : exponentSign ((if negative then '-' else '+') :: (size ++ rest)) = (negative, size ++ rest) := by
    cases negative <;> rfl
  rw [exponent?, if_pos (.inl rfl), hsign]
  simp only [figures_append hsize hrest]
  cases size with
  | nil => exact absurd rfl hne
  | cons c cs => rfl

/-! ### Numerals -/

theorem realOfFigures_eq_ofDecimal (negative : Bool) (cs : List Char) (e : Int) :
    realOfFigures negative cs e = .ofDecimal negative (valueOfFigures 0 cs) e :=
  Decimal.ofDecimal_congr (Decimal.value_strip _ _)

/-- What a numeral is read as, said from its parts. -/
theorem unsignedNumeral?_of_parts {behind behind' : List Char} {exponent : Option Int}
    (hwhole : wholeFigures cs = (whole, behind)) (hne : whole ≠ [])
    (hfraction : fractionFigures behind = (fraction, behind')) (hexponent : exponent? behind' = (exponent, rest)) :
    unsignedNumeral? negative cs =
      some (if fraction = [] ∧ exponent = none then .int (signed negative (valueOfFigures 0 whole))
        else .real (.ofDecimal negative (valueOfFigures 0 (whole ++ fraction))
          (exponent.getD 0 - fraction.length)), rest) := by
  rw [unsignedNumeral?, hwhole]
  cases whole with
  | nil => exact absurd rfl hne
  | cons c whole =>
    simp only [hfraction, hexponent, realOfFigures_eq_ofDecimal]
    split <;> rfl

theorem unsignedNumeral?_whole (negative : Bool) (hwhole : IsWhole whole) (hrest : EndsNumeral rest) :
    unsignedNumeral? negative (whole ++ rest) = some (.int (signed negative (valueOfFigures 0 whole)), rest) := by
  have hpoint : rest.head? ≠ some '.' := fun h => (hrest '.' h).2.1 rfl
  rw [unsignedNumeral?_of_parts (wholeFigures_append hwhole hrest.endsFigures) hwhole.ne_nil
    (fractionFigures_of_ne hpoint) (exponent?_of_ne fun c hc => (hrest c hc).2.2), if_pos ⟨rfl, rfl⟩]

theorem unsignedNumeral?_positional (hwhole : IsWhole whole) (hfraction : AreFigures fraction) (hne : fraction ≠ [])
    (hrest : EndsNumeral rest) :
    unsignedNumeral? negative (whole ++ '.' :: (fraction ++ rest)) =
      some (.real (.ofDecimal negative (valueOfFigures 0 (whole ++ fraction)) (-fraction.length)), rest) := by
  have hpoint : EndsFigures ('.' :: (fraction ++ rest)) := by rintro _ ⟨⟩; decide
  rw [unsignedNumeral?_of_parts (wholeFigures_append hwhole hpoint) hwhole.ne_nil
    (fractionFigures_point hfraction hne hrest.endsFigures) (exponent?_of_ne fun c hc => (hrest c hc).2.2),
    if_neg fun h => hne h.1, Option.getD_none, Int.zero_sub]

theorem unsignedNumeral?_scientific (negative below : Bool) (hwhole : IsWhole whole)
    (hfraction : AreFigures fraction) (hsize : AreFigures size) (hne : size ≠ []) (hrest : EndsNumeral rest) :
    unsignedNumeral? negative
        (whole ++ (pointed false fraction ++ 'e' :: (if below then '-' else '+') :: (size ++ rest))) =
      some (.real (.ofDecimal negative (valueOfFigures 0 (whole ++ fraction))
        (signed below (valueOfFigures 0 size) - fraction.length)), rest) := by
  have hletter (behind : List Char) : EndsFigures ('e' :: behind) := by rintro _ ⟨⟩; decide
  have hends (behind : List Char) : EndsFigures (pointed false fraction ++ 'e' :: behind) := by
    cases fraction <;> rintro _ ⟨⟩ <;> decide
  have hparts (behind : List Char) :
      fractionFigures (pointed false fraction ++ 'e' :: behind) = (fraction, 'e' :: behind) := by
    cases fraction with
    | nil => rfl
    | cons c cs => exact fractionFigures_point hfraction (by simp) (hletter _)
  rw [unsignedNumeral?_of_parts (wholeFigures_append hwhole (hends _)) hwhole.ne_nil (hparts _)
    (exponent?_signed hsize hne hrest.endsFigures), if_neg fun h => absurd h.2 (by simp), Option.getD_some]

theorem numeral?_eq_none (hfigure : isFigure c = false) (hminus : c ≠ '-') : numeral? (c :: cs) = none := by
  have hzero : c ≠ '0' := by
    rintro rfl
    exact absurd hfigure (by decide)
  rw [numeral?, unsignedNumeral?, wholeFigures]
  · simp [figures, hfigure]
  · rintro _ ⟨⟩
    exact hzero rfl
  · rintro _ ⟨⟩
    exact hminus rfl

theorem numeral?_of_unsigned {found : Value × List Char} (h : unsignedNumeral? false cs = some found) :
    numeral? cs = some found := by
  rw [numeral?]
  · exact h
  · rintro cs' rfl
    simp [unsignedNumeral?, wholeFigures, figures, isFigure] at h

/-- **An integer is read back.** -/
theorem numeral?_int (n : Int) (hrest : EndsNumeral rest) :
    numeral? ((toString n).toList ++ rest) = some (.int n, rest) := by
  have hdigits (k : Nat) : k.repr.toList = Nat.toDigits 10 k := by simp [Nat.repr]
  have hread (negative : Bool) (k : Nat) := unsignedNumeral?_whole negative (isWhole_toDigits k) hrest
  rw [Int.toString_eq_repr, Int.repr_eq_if]
  split
  next h =>
    rw [hdigits, numeral?_of_unsigned (hread false _), valueOfFigures_toDigits, signed, if_neg (by decide),
      Int.toNat_of_nonneg h]
  next h =>
    rw [String.toList_append, hdigits]
    refine (hread true _).trans ?_
    rw [valueOfFigures_toDigits, signed, if_pos rfl, Int.toNat_of_nonneg (by omega), Int.neg_neg]

/-! ### Layouts -/

theorem Decimal.isWhole_figures (d : Decimal) : IsWhole d.figures := isWhole_toDigits d.digits

@[simp] theorem Decimal.valueOfFigures_figures (d : Decimal) : valueOfFigures 0 d.figures = d.digits :=
  valueOfFigures_toDigits d.digits

namespace Binary64

variable {d : Decimal}

theorem unsignedNumeral?_filled (hpos : 0 < d.digits) (h : 0 ≤ d.exponent) (hrest : EndsNumeral rest) :
    unsignedNumeral? negative (d.figures ++ List.replicate d.exponent.toNat '0' ++ '.' :: (['0'] ++ rest)) =
      some (.real (.ofDecimal negative d.digits d.exponent), rest) := by
  have hwhole : IsWhole (d.figures ++ List.replicate d.exponent.toNat '0') := {
    ne_nil := by simp [d.isWhole_figures.ne_nil]
    areFigures := d.isWhole_figures.areFigures.append (areFigures_replicate_zero _)
    eq_zero := fun hhead => by
      rw [List.head?_append_of_ne_nil _ d.isWhole_figures.ne_nil] at hhead
      exact absurd hhead (head?_toDigits_ne_zero hpos) }
  have hvalue : valueOfFigures 0 (d.figures ++ List.replicate d.exponent.toNat '0' ++ ['0']) =
      10 * (10 ^ d.exponent.toNat * d.digits) := by
    rw [valueOfFigures_append, valueOfFigures_append, d.valueOfFigures_figures, valueOfFigures_replicate_zero]
    rfl
  obtain ⟨k, hk⟩ := Int.eq_ofNat_of_zero_le h
  have hsame : (Decimal.mk (10 * (10 ^ d.exponent.toNat * d.digits)) (-1)).value = d.value := by
    obtain ⟨k, hk⟩ := Int.eq_ofNat_of_zero_le h
    simp only [Decimal.value, hk]
    push_cast
    rw [zpow_neg_one, zpow_natCast, Int.toNat_natCast]
    ring
  have hzero : AreFigures ['0'] := areFigures_replicate_zero 1
  rw [unsignedNumeral?_positional hwhole hzero (by simp) hrest, hvalue]
  exact congrArg (fun x => some (Value.real x, rest)) (Decimal.ofDecimal_congr hsame)

theorem unsignedNumeral?_cut {k : Nat} (hpos : 0 < d.digits) (hk : 0 < k)
    (hexponent : d.exponent + d.figures.length = k) (hlt : k < d.figures.length) (hrest : EndsNumeral rest) :
    unsignedNumeral? negative (d.figures.take k ++ '.' :: (d.figures.drop k ++ rest)) =
      some (.real (.ofDecimal negative d.digits d.exponent), rest) := by
  have hwhole : IsWhole (d.figures.take k) := {
    ne_nil := by simp [d.isWhole_figures.ne_nil, hk.ne']
    areFigures := fun c hc => d.isWhole_figures.areFigures c (List.mem_of_mem_take hc)
    eq_zero := fun h => by
      rw [List.head?_take, if_neg hk.ne'] at h
      exact absurd h (head?_toDigits_ne_zero hpos) }
  have hfraction : AreFigures (d.figures.drop k) := fun c hc =>
    d.isWhole_figures.areFigures c (List.mem_of_mem_drop hc)
  have hlength : -((d.figures.drop k).length : Int) = d.exponent := by
    rw [List.length_drop]
    omega
  rw [unsignedNumeral?_positional hwhole hfraction (by simp; omega) hrest, List.take_append_drop,
    d.valueOfFigures_figures, hlength]

theorem unsignedNumeral?_small {k : Nat} (hexponent : d.exponent + d.figures.length = -(k : Int))
    (hrest : EndsNumeral rest) :
    unsignedNumeral? negative (['0'] ++ '.' :: (List.replicate k '0' ++ d.figures ++ rest)) =
      some (.real (.ofDecimal negative d.digits d.exponent), rest) := by
  have hfraction : AreFigures (List.replicate k '0' ++ d.figures) :=
    (areFigures_replicate_zero k).append d.isWhole_figures.areFigures
  have hvalue : valueOfFigures 0 (['0'] ++ (List.replicate k '0' ++ d.figures)) = d.digits := by
    rw [valueOfFigures_append, valueOfFigures_append, valueOfFigures_replicate_zero]
    exact d.valueOfFigures_figures
  have hlength : -((List.replicate k '0' ++ d.figures).length : Int) = d.exponent := by
    rw [List.length_append, List.length_replicate]
    omega
  have hzero : IsWhole ['0'] := isWhole_toDigits 0
  rw [unsignedNumeral?_positional hzero hfraction (by simp [d.isWhole_figures.ne_nil]) hrest, hvalue, hlength]

theorem unsignedNumeral?_leading (negative : Bool) {first : Char} {more : List Char}
    (hfigures : d.figures = first :: more) (hsize : AreFigures size) (hne : size ≠ [])
    (hleading : valueOfFigures 0 size = d.leading.natAbs) (hrest : EndsNumeral rest) :
    unsignedNumeral? negative
        ([first] ++ (pointed false more ++ 'e' :: (if d.leading < 0 then '-' else '+') :: (size ++ rest))) =
      some (.real (.ofDecimal negative d.digits d.exponent), rest) := by
  have hall : AreFigures ([first] ++ more) := by
    have := d.isWhole_figures.areFigures
    rwa [hfigures] at this
  have hfirst : IsWhole [first] := {
    ne_nil := by simp
    areFigures := fun c hc => hall c (List.mem_append_left _ hc)
    eq_zero := fun h => by simpa using h }
  have hdigits : valueOfFigures 0 ([first] ++ more) = d.digits := by
    rw [List.singleton_append, ← hfigures, d.valueOfFigures_figures]
  have hexponent : signed (decide (d.leading < 0)) d.leading.natAbs - more.length = d.exponent := by
    have hlength : d.figures.length = more.length + 1 := by rw [hfigures, List.length_cons]
    have hsigned : signed (decide (d.leading < 0)) d.leading.natAbs = d.leading := by
      rw [signed]
      simp only [decide_eq_true_eq]
      split <;> omega
    rw [hsigned, Decimal.leading, hlength]
    omega
  have hread := unsignedNumeral?_scientific negative (decide (d.leading < 0)) hfirst
    (fun c hc => hall c (List.mem_append_right _ hc)) hsize hne hrest
  rw [hdigits, hleading, hexponent] at hread
  simpa only [decide_eq_true_eq] using hread

/-- **The layout of a decimal is read as that decimal.** -/
theorem unsignedNumeral?_layout (hpos : 0 < d.digits) (hrest : EndsNumeral rest) :
    unsignedNumeral? negative (layout d ++ rest) =
      some (.real (.ofDecimal negative d.digits d.exponent), rest) := by
  have hlength : 0 < d.figures.length := List.length_pos_iff.2 d.isWhole_figures.ne_nil
  have hleading : d.leading = d.exponent + d.figures.length - 1 := rfl
  rw [layout]
  split
  next hrange =>
    split
    next h => simpa using unsignedNumeral?_filled hpos h hrest
    split
    next hneg h =>
      simpa using unsignedNumeral?_cut (k := d.leading.toNat + 1) hpos (by omega) (by omega) (by omega) hrest
    next hneg h =>
      simpa using unsignedNumeral?_small (d := d) (k := (-d.leading - 1).toNat) (by omega) hrest
  next hrange =>
    let size := Nat.toDigits 10 d.leading.natAbs
    have hsize : AreFigures (List.replicate (2 - size.length) '0' ++ size) :=
      (areFigures_replicate_zero _).append (areFigures_toDigits _)
    have hvalue : valueOfFigures 0 (List.replicate (2 - size.length) '0' ++ size) = d.leading.natAbs := by
      rw [valueOfFigures_append, valueOfFigures_replicate_zero]
      exact valueOfFigures_toDigits _
    have hread (first : Char) (more : List Char) (hfigures : d.figures = first :: more) :=
      unsignedNumeral?_leading negative hfigures hsize (by simp [size, Nat.toDigits_ne_nil]) hvalue hrest
    match hfigures : d.figures with
    | [] => exact absurd hfigures d.isWhole_figures.ne_nil
    | [first] => simpa [pointed] using hread first [] hfigures
    | first :: second :: more => simpa [pointed] using hread first (second :: more) hfigures

theorem unsignedNumeral?_unsigned (negative : Bool) {significand : Nat} {exponent : Int}
    (parts : AreParts significand exponent) (hrest : EndsNumeral rest) :
    unsignedNumeral? negative ((if significand = 0 then "0.0"
        else String.ofList
          (layout ((finite negative significand exponent parts).shortestOf significand exponent))).toList
          ++ rest) =
      some (.real (finite negative significand exponent parts), rest) := by
  have hback := readsBack_shortestOf negative parts
  split
  next hzero =>
    subst hzero
    obtain rfl : exponent = -1074 := parts.2.2.2.resolve_left (by decide)
    have hwhole : IsWhole ['0'] := isWhole_toDigits 0
    have hfraction : AreFigures ['0'] := areFigures_replicate_zero 1
    exact unsignedNumeral?_positional hwhole hfraction (by simp) hrest
  next hne =>
    have hpos : 0 < ((finite negative significand exponent parts).shortestOf significand exponent).digits := by
      refine Nat.pos_of_ne_zero fun hzero => hne ?_
      rw [ReadsBack, hzero, ofDecimal, if_pos rfl, zero] at hback
      injection hback with _ h
      exact h.symm
    rw [String.toList_ofList, unsignedNumeral?_layout hpos hrest]
    exact congrArg (fun x => some (Value.real x, rest)) hback

/-- **A finite number is read back.** -/
theorem numeral?_real {significand : Nat} {exponent : Int} (parts : AreParts significand exponent)
    (hrest : EndsNumeral rest) :
    numeral? ((finite negative significand exponent parts).text.toList ++ rest) =
      some (.real (finite negative significand exponent parts), rest) := by
  have hread := unsignedNumeral?_unsigned negative parts hrest
  cases negative with
  | false => exact numeral?_of_unsigned hread
  | true =>
    have hsign : (finite true significand exponent parts).isNegative = true := rfl
    rw [text, if_pos hsign, String.toList_append]
    exact hread

end Binary64

end ForwardChaining
