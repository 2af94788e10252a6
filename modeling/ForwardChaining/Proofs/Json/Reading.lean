import ForwardChaining.Json.Reader
import ForwardChaining.Json.Writer
import ForwardChaining.Proofs.Datum
import ForwardChaining.Proofs.Json.Quoted
import ForwardChaining.Proofs.Number.Numeral

/-!
# Reading JSON that was written

A text spells a datum if it is read as it wherever no numeral goes on behind it, `Spells`.  Scalars are spelled by
their forms, and a list or a map by what spells its items or entries, with a comma between them and any gaps behind the
brackets and the commas, `spells_list` and `spells_map`.  The plain and the indented layout differ in these gaps only,
so both are read back, `read?_plain` and `read?_indented`.  A map that gives a key twice is not: the later value
counts, so the theorems are about data with distinct keys.  Nor is a text in which the halves of a surrogate pair stand
side by side, which reading joins: whatever is read is without them, `unpairedIn_of_read?`.
-/

namespace ForwardChaining.Json

variable {cs gap rest text : List Char} {texts : List (List Char)} {c : Char} {d : Datum} {v : Scalar} {fuel : Nat}
  {items : List Datum} {entries : List (CodeText × Datum)}

/-- A text is read as a datum wherever no numeral goes on behind it, if there are two steps for each of its
characters. -/
def Spells (d : Datum) (cs : List Char) : Prop :=
  ∀ fuel rest, 2 * cs.length ≤ fuel → EndsNumeral rest → value? fuel (cs ++ rest) = some (d, rest)

/-- A text between the parts of a value. -/
def IsGap (gap : List Char) : Prop := ∀ c ∈ gap, isGap c = true

/-! ### Scalars -/

theorem word?_of_numeral? {found : Value × List Char} (h : numeral? cs = some found) : word? cs = none := by
  rw [word?, List.findSome?_eq_none_iff]
  intro word hword
  refine if_neg fun hprefix => ?_
  obtain ⟨rest, rfl⟩ := List.isPrefixOf_iff_prefix.1 hprefix
  simp only [words, List.mem_cons, List.not_mem_nil, or_false] at hword
  rcases hword with rfl | rfl | rfl | rfl | rfl | rfl <;>
    simp [numeral?, unsignedNumeral?, wholeFigures, figures, isFigure] at h

theorem value?_of_numeral? {v : Value} (h : numeral? cs = some (v, rest)) :
    value? (fuel + 1) cs = some (.scalar (.ofValue v), rest) := by
  have hscalar : scalar? cs = some (.ofValue v, rest) := by
    rw [scalar?]
    · rw [word?_of_numeral? h, h]
      rfl
    · rintro _ rfl
      rw [numeral?_eq_none (by decide) (by decide)] at h
      cases h
  rw [value?, hscalar]
  · rfl
  all_goals
    rintro _ rfl
    rw [numeral?_eq_none (by decide) (by decide)] at h
    cases h

theorem value?_of_word {word : List Char} (h : (word, v) ∈ words) (fuel : Nat) (rest : List Char) :
    value? (fuel + 1) (word ++ rest) = some (.scalar v, rest) := by
  simp only [words, List.mem_cons, List.not_mem_nil, or_false, Prod.mk.injEq] at h
  rcases h with ⟨rfl, rfl⟩ | ⟨rfl, rfl⟩ | ⟨rfl, rfl⟩ | ⟨rfl, rfl⟩ | ⟨rfl, rfl⟩ | ⟨rfl, rfl⟩ <;>
    simp [value?, scalar?, word?, words]

theorem value?_quoted {s : CodeText} (h : Unpaired s) (fuel : Nat) (rest : List Char) :
    value? (fuel + 1) (quoted s ++ rest) = some (.scalar (.text s), rest) := by
  have hshape : quoted s ++ rest = '"' :: (s.flatMap escaped ++ '"' :: rest) := by simp [quoted]
  rw [hshape, value?, scalar?, unquote?_quoted h]
  · rfl
  all_goals rintro _ ⟨⟩

theorem value?_eq_none (h : c ∈ [' ', '\t', '\n', '\r', ']', '\x7d']) : value? fuel (c :: cs) = none := by
  simp only [List.mem_cons, List.not_mem_nil, or_false] at h
  cases fuel with
  | zero => rfl
  | succ fuel =>
    rcases h with rfl | rfl | rfl | rfl | rfl | rfl <;>
      simp [value?, scalar?, word?, words, numeral?_eq_none, isFigure]

theorem value?_nil : value? fuel [] = none := by
  cases fuel with
  | zero => rfl
  | succ fuel => simp [value?, scalar?, word?, words, numeral?, unsignedNumeral?, wholeFigures, figures]

theorem endsNumeral_nil : EndsNumeral [] := nofun

/-- A datum that takes one step to read is spelled. -/
theorem spells_of_succ (h : ∀ fuel rest, EndsNumeral rest → value? (fuel + 1) (cs ++ rest) = some (d, rest)) :
    Spells d cs := by
  intro fuel rest hfuel hrest
  cases cs with
  | nil =>
    have := h 0 [] endsNumeral_nil
    rw [List.append_nil, value?_nil] at this
    cases this
  | cons c cs =>
    obtain ⟨fuel, rfl⟩ : ∃ n, fuel = n + 1 := Nat.exists_eq_succ_of_ne_zero (by simp at hfuel; omega)
    exact h fuel rest hrest

/-- **A scalar is read back**, a text if it has no pairs. -/
theorem spells_scalar (v : Scalar) (h : ∀ s, v = .text s → Unpaired s) : Spells (.scalar v) (scalarText v) := by
  refine spells_of_succ fun fuel rest hrest => ?_
  match v with
  | .text s => exact value?_quoted (h s rfl) fuel rest
  | .int n => exact value?_of_numeral? (numeral?_int n hrest)
  | .bool true => exact value?_of_word (by simp [words, scalarText]) fuel rest
  | .bool false => exact value?_of_word (by simp [words, scalarText]) fuel rest
  | .null => exact value?_of_word (by simp [words, scalarText]) fuel rest
  | .real .nan => exact value?_of_word (by simp [words, scalarText, realText]) fuel rest
  | .real (.infinite true) => exact value?_of_word (by simp [words, scalarText, realText]) fuel rest
  | .real (.infinite false) => exact value?_of_word (by simp [words, scalarText, realText]) fuel rest
  | .real (.finite _ _ _ parts) => exact value?_of_numeral? (Binary64.numeral?_real parts hrest)

/-! ### Gaps -/

theorem isGap_nil : IsGap [] := nofun

theorem isGap_blank : IsGap [' '] := by simp [IsGap, isGap]

theorem isGap_margin (depth : Nat) : IsGap (margin depth) := by
  simp [IsGap, margin, isGap]

theorem skipGap_append (h : IsGap gap) (cs : List Char) : skipGap (gap ++ cs) = skipGap cs :=
  List.dropWhile_append_of_pos h

theorem skipGap_cons (h : isGap c = false) (cs : List Char) : skipGap (c :: cs) = c :: cs := by
  simp [skipGap, h]

theorem endsNumeral_cons (h : c ∈ [' ', '\t', '\n', '\r', ',', ']', '\x7d']) : EndsNumeral (c :: cs) := by
  rintro _ ⟨⟩
  simp only [List.mem_cons, List.not_mem_nil, or_false] at h
  rcases h with rfl | rfl | rfl | rfl | rfl | rfl | rfl <;> decide

theorem endsNumeral_gap (hgap : IsGap gap) (h : c ∈ [',', ']', '\x7d']) : EndsNumeral (gap ++ c :: cs) := by
  cases gap with
  | nil => exact endsNumeral_cons (by simp only [List.mem_cons] at h ⊢; tauto)
  | cons g gap =>
    have hg := hgap g (List.mem_cons_self)
    simp only [isGap, Bool.or_eq_true, decide_eq_true_eq] at hg
    exact endsNumeral_cons (by simp only [List.mem_cons]; tauto)

theorem Spells.exists_cons (h : Spells d cs) :
    ∃ c more, cs = c :: more ∧ isGap c = false ∧ c ≠ ']' ∧ c ≠ '\x7d' := by
  have hread := h (2 * cs.length) [] (Nat.le_refl _) endsNumeral_nil
  rw [List.append_nil] at hread
  cases cs with
  | nil => rw [value?_nil] at hread; cases hread
  | cons c more =>
    have hnot : c ∉ [' ', '\t', '\n', '\r', ']', '\x7d'] := fun hmem => by
      rw [value?_eq_none hmem] at hread
      cases hread
    simp only [List.mem_cons, List.not_mem_nil, or_false, not_or] at hnot
    refine ⟨c, more, rfl, ?_, hnot.2.2.2.2.1, hnot.2.2.2.2.2⟩
    simp [isGap, hnot]

/-! ### Lists -/

theorem joined_cons_cons (separator text next : List Char) (texts : List (List Char)) :
    joined separator (text :: next :: texts) = text ++ separator ++ joined separator (next :: texts) := rfl

theorem exists_joined (separator text : List Char) (texts : List (List Char)) :
    ∃ more, joined separator (text :: texts) = text ++ more := by
  cases texts with
  | nil => exact ⟨[], (List.append_nil text).symm⟩
  | cons next texts => exact ⟨separator ++ joined separator (next :: texts), List.append_assoc ..⟩

variable {gap' gap'' : List Char}

theorem items?_item (h : Spells d text) (hfuel : 2 * text.length ≤ fuel) (hrest : EndsNumeral rest) :
    (∀ behind, skipGap rest = ']' :: behind → items? (fuel + 1) (text ++ rest) = some ([d], behind)) ∧
    ∀ behind, skipGap rest = ',' :: behind →
      items? (fuel + 1) (text ++ rest) =
        (items? fuel (skipGap behind)).map fun found => (d :: found.1, found.2) := by
  have hread := h fuel rest hfuel hrest
  constructor <;> intro behind hskip <;> simp only [items?, hread, hskip]

theorem items?_joined (hgap : IsGap gap) (hgap' : IsGap gap') (h : List.Forall₂ Spells items texts)
    (hne : texts ≠ []) (hfuel : 2 * (joined (',' :: gap) texts).length < fuel) (rest : List Char) :
    items? fuel (joined (',' :: gap) texts ++ (gap' ++ ']' :: rest)) = some (items, rest) := by
  induction h generalizing fuel with
  | nil => exact absurd rfl hne
  | @cons d text items texts hd htail ih =>
    obtain ⟨fuel, rfl⟩ : ∃ n, fuel = n + 1 := Nat.exists_eq_succ_of_ne_zero (by omega)
    -- the comma or the bracket behind an item pays for the step that it takes
    cases htail with
    | nil =>
      have hends : EndsNumeral (gap' ++ ']' :: rest) := endsNumeral_gap hgap' (by simp)
      have hlast := (items?_item hd (by simpa [joined] using Nat.le_of_lt_succ hfuel) hends).1 rest
      rw [skipGap_append hgap', skipGap_cons (by decide)] at hlast
      exact hlast rfl
    | @cons next text' items' texts' hnext htail =>
      rw [joined_cons_cons] at hfuel ⊢
      simp only [List.length_append, List.length_cons] at hfuel
      have hends (behind : List Char) : EndsNumeral (',' :: behind) := endsNumeral_cons (by simp)
      have hmore := @ih fuel (by simp) (by omega)
      have hskip (behind : List Char) :
          skipGap (joined (',' :: gap) (text' :: texts') ++ behind) =
            joined (',' :: gap) (text' :: texts') ++ behind := by
        obtain ⟨more, hjoined⟩ := exists_joined (',' :: gap) text' texts'
        obtain ⟨c, tail, rfl, hc, -⟩ := hnext.exists_cons
        rw [hjoined]
        exact skipGap_cons hc _
      rw [List.append_assoc, List.append_assoc, List.cons_append,
        (items?_item hd (by omega) (hends _)).2 _ (skipGap_cons (by decide) _), skipGap_append hgap, hskip, hmore,
        Option.map_some]

/-- **A list is spelled by what spells its items.** -/
theorem spells_list (hgap : IsGap gap) (hgap' : IsGap gap') (hgap'' : IsGap gap'')
    (h : List.Forall₂ Spells items texts) :
    Spells (.list items) ('[' :: gap' ++ joined (',' :: gap) texts ++ gap'' ++ [']']) := by
  intro fuel rest hfuel hrest
  obtain ⟨fuel, rfl⟩ : ∃ n, fuel = n + 1 := Nat.exists_eq_succ_of_ne_zero (by simp at hfuel; omega)
  simp only [List.cons_append, List.append_assoc, value?, skipGap_append hgap', List.nil_append]
  cases h with
  | nil => simp only [joined, List.nil_append, skipGap_append hgap'', skipGap_cons (c := ']') (by decide)]
  | @cons d text items texts hd htail =>
    obtain ⟨more, hmore⟩ := exists_joined (',' :: gap) text texts
    have hfuel' : 2 * (joined (',' :: gap) (text :: texts)).length < fuel := by
      simp only [List.length_cons, List.length_append] at hfuel
      omega
    have hitems := items?_joined hgap hgap'' (.cons hd htail) (by simp) hfuel' rest
    obtain ⟨c, tail, rfl, hc, hclose, -⟩ := hd.exists_cons
    rw [hmore] at hitems ⊢
    simp only [List.cons_append, List.append_assoc] at hitems ⊢
    rw [skipGap_cons hc]
    split
    next heq => exact absurd (List.cons.inj heq).1 hclose
    next => rw [hitems]; rfl

/-! ### Maps -/

/-- A text spells an entry: its key, without pairs, between quotes, a colon and a blank, and what spells its value. -/
def SpellsEntry (e : CodeText × Datum) (cs : List Char) : Prop :=
  ∃ text, Unpaired e.1 ∧ Spells e.2 text ∧ cs = quoted e.1 ++ [':', ' '] ++ text

theorem entriesOf_of_nodup (hkeys : (entries.map Prod.fst).Nodup) : entriesOf entries = entries := by
  rw [entriesOf]
  simpa using Datum.foldl_put hkeys []

theorem entries?_entry {e : CodeText × Datum} (h : SpellsEntry e text) (hfuel : 2 * text.length ≤ fuel)
    (hrest : EndsNumeral rest) :
    (∀ behind, skipGap rest = '\x7d' :: behind → entries? (fuel + 1) (text ++ rest) = some ([e], behind)) ∧
    ∀ behind, skipGap rest = ',' :: behind →
      entries? (fuel + 1) (text ++ rest) =
        (entries? fuel (skipGap behind)).map fun found => (e :: found.1, found.2) := by
  obtain ⟨text, hkey, hvalue, rfl⟩ := h
  have hread := hvalue fuel rest (by simp at hfuel; omega) hrest
  obtain ⟨c, more, rfl, hc, -⟩ := hvalue.exists_cons
  have hshape : quoted e.1 ++ [':', ' '] ++ c :: more ++ rest =
      '"' :: (e.1.flatMap escaped ++ '"' :: ':' :: ([' '] ++ (c :: more ++ rest))) := by
    simp [quoted]
  have hskip : skipGap (c :: more ++ rest) = c :: more ++ rest := skipGap_cons hc _
  rw [hshape]
  constructor <;> intro behind hbehind <;>
    simp only [entries?, unquote?_quoted hkey, skipGap_cons (c := ':') (by decide), skipGap_append isGap_blank, hskip,
      hread, hbehind]

theorem entries?_joined (hgap : IsGap gap) (hgap' : IsGap gap') (h : List.Forall₂ SpellsEntry entries texts)
    (hne : texts ≠ []) (hfuel : 2 * (joined (',' :: gap) texts).length < fuel) (rest : List Char) :
    entries? fuel (joined (',' :: gap) texts ++ (gap' ++ '\x7d' :: rest)) = some (entries, rest) := by
  induction h generalizing fuel with
  | nil => exact absurd rfl hne
  | @cons e text entries texts he htail ih =>
    obtain ⟨fuel, rfl⟩ : ∃ n, fuel = n + 1 := Nat.exists_eq_succ_of_ne_zero (by omega)
    cases htail with
    | nil =>
      have hends : EndsNumeral (gap' ++ '\x7d' :: rest) := endsNumeral_gap hgap' (by simp)
      have hlast := (entries?_entry he (by simpa [joined] using Nat.le_of_lt_succ hfuel) hends).1 rest
      rw [skipGap_append hgap', skipGap_cons (by decide)] at hlast
      exact hlast rfl
    | @cons next text' entries' texts' hnext htail =>
      rw [joined_cons_cons] at hfuel ⊢
      simp only [List.length_append, List.length_cons] at hfuel
      have hends (behind : List Char) : EndsNumeral (',' :: behind) := endsNumeral_cons (by simp)
      have hmore := @ih fuel (by simp) (by omega)
      have hskip (behind : List Char) :
          skipGap (joined (',' :: gap) (text' :: texts') ++ behind) =
            joined (',' :: gap) (text' :: texts') ++ behind := by
        obtain ⟨more, hjoined⟩ := exists_joined (',' :: gap) text' texts'
        obtain ⟨value, -, -, rfl⟩ := hnext
        rw [hjoined]
        exact skipGap_cons (by decide) _
      rw [List.append_assoc, List.append_assoc, List.cons_append,
        (entries?_entry he (by omega) (hends _)).2 _ (skipGap_cons (by decide) _), skipGap_append hgap, hskip, hmore,
        Option.map_some]

/-- **A map is spelled by what spells its entries**, if their keys are distinct. -/
theorem spells_map (hgap : IsGap gap) (hgap' : IsGap gap') (hgap'' : IsGap gap'')
    (h : List.Forall₂ SpellsEntry entries texts) (hkeys : (entries.map Prod.fst).Nodup) :
    Spells (.map entries) ('\x7b' :: gap' ++ joined (',' :: gap) texts ++ gap'' ++ ['\x7d']) := by
  intro fuel rest hfuel hrest
  obtain ⟨fuel, rfl⟩ : ∃ n, fuel = n + 1 := Nat.exists_eq_succ_of_ne_zero (by simp at hfuel; omega)
  simp only [List.cons_append, List.append_assoc, value?, skipGap_append hgap', List.nil_append]
  cases h with
  | nil => simp only [joined, List.nil_append, skipGap_append hgap'', skipGap_cons (c := '\x7d') (by decide)]
  | @cons e text entries texts he htail =>
    obtain ⟨more, hmore⟩ := exists_joined (',' :: gap) text texts
    have hfuel' : 2 * (joined (',' :: gap) (text :: texts)).length < fuel := by
      simp only [List.length_cons, List.length_append] at hfuel
      omega
    have hentries := entries?_joined hgap hgap'' (.cons he htail) (by simp) hfuel' rest
    obtain ⟨value, -, -, rfl⟩ := he
    rw [hmore] at hentries ⊢
    simp only [quoted, List.cons_append, List.append_assoc] at hentries ⊢
    rw [skipGap_cons (by decide)]
    split
    next heq => exact absurd (List.cons.inj heq).1 (by decide)
    next => rw [hentries, Option.map_some, entriesOf_of_nodup hkeys]

/-! ### The layouts -/

theorem plainItems_eq_map (items : List Datum) : plainItems items = items.map plainText := by
  induction items with
  | nil => rfl
  | cons d items ih => rw [plainItems, ih, List.map_cons]

theorem plainEntries_eq_map (entries : List (CodeText × Datum)) :
    plainEntries entries = entries.map fun e => quoted e.1 ++ [':', ' '] ++ plainText e.2 := by
  induction entries with
  | nil => rfl
  | cons e entries ih => rw [plainEntries, ih, List.map_cons]

theorem indentedItems_eq_map (depth : Nat) (items : List Datum) :
    indentedItems depth items = items.map (indentedText depth) := by
  induction items with
  | nil => rfl
  | cons d items ih => rw [indentedItems, ih, List.map_cons]

theorem indentedEntries_eq_map (depth : Nat) (entries : List (CodeText × Datum)) :
    indentedEntries depth entries =
      entries.map fun e => quoted e.1 ++ [':', ' '] ++ indentedText depth e.2 := by
  induction entries with
  | nil => rfl
  | cons e entries ih => rw [indentedEntries, ih, List.map_cons]

theorem forall₂_spells {write : Datum → List Char} (h : ∀ d ∈ items, Spells d (write d)) :
    List.Forall₂ Spells items (items.map write) := by
  rw [List.forall₂_map_right_iff]
  exact List.forall₂_same.2 h

theorem forall₂_spellsEntry {write : Datum → List Char} (hkeys : ∀ e ∈ entries, Unpaired e.1)
    (h : ∀ e ∈ entries, Spells e.2 (write e.2)) :
    List.Forall₂ SpellsEntry entries (entries.map fun e => quoted e.1 ++ [':', ' '] ++ write e.2) := by
  rw [List.forall₂_map_right_iff]
  exact List.forall₂_same.2 fun e he => ⟨write e.2, hkeys e he, h e he, rfl⟩

/-- No text in a datum, neither a key nor a value, has a pair. -/
inductive UnpairedIn : Datum → Prop where
  | scalar {v : Scalar} (h : ∀ s, v = .text s → Unpaired s) : UnpairedIn (.scalar v)
  | list {items : List Datum} (h : ∀ d ∈ items, UnpairedIn d) : UnpairedIn (.list items)
  | map {entries : List (CodeText × Datum)} (hkeys : ∀ e ∈ entries, Unpaired e.1)
      (h : ∀ e ∈ entries, UnpairedIn e.2) : UnpairedIn (.map entries)

@[simp] theorem unpairedIn_scalar : UnpairedIn (.scalar v) ↔ ∀ s, v = .text s → Unpaired s := by
  constructor
  · rintro (h | _)
    exact h
  · exact .scalar

theorem unpairedIn_text {s : CodeText} : UnpairedIn (.text s) ↔ Unpaired s := by simp

@[simp] theorem unpairedIn_list : UnpairedIn (.list items) ↔ ∀ d ∈ items, UnpairedIn d := by
  constructor
  · rintro (_ | h)
    exact h
  · exact .list

@[simp] theorem unpairedIn_map :
    UnpairedIn (.map entries) ↔ (∀ e ∈ entries, Unpaired e.1) ∧ ∀ e ∈ entries, UnpairedIn e.2 := by
  constructor
  · rintro (_ | _ | ⟨hkeys, h⟩)
    exact ⟨hkeys, h⟩
  · exact fun ⟨hkeys, h⟩ => .map hkeys h

theorem spells_plainText (h : d.KeysDistinct) (hunpaired : UnpairedIn d) : Spells d (plainText d) := by
  induction hunpaired with
  | scalar hv => exact spells_scalar _ hv
  | list hitems ih =>
    rw [plainText, plainItems_eq_map]
    have hdistinct := Datum.keysDistinct_list.1 h
    simpa using spells_list isGap_blank isGap_nil isGap_nil (forall₂_spells fun d hd => ih d hd (hdistinct d hd))
  | map hkeys hentries ih =>
    rw [plainText, plainEntries_eq_map]
    obtain ⟨hnodup, hdistinct⟩ := Datum.keysDistinct_map.1 h
    simpa using spells_map isGap_blank isGap_nil isGap_nil
      (forall₂_spellsEntry hkeys fun e he => ih e he (hdistinct e he)) hnodup

theorem exists_stacked (opening closing : Char) (depth : Nat) (texts : List (List Char)) :
    ∃ gap gap' gap'', IsGap gap ∧ IsGap gap' ∧ IsGap gap'' ∧
      stacked opening closing depth texts = opening :: gap' ++ joined (',' :: gap) texts ++ gap'' ++ [closing] := by
  cases texts with
  | nil => exact ⟨[], [], [], isGap_nil, isGap_nil, isGap_nil, rfl⟩
  | cons text texts =>
    exact ⟨_, _, _, isGap_margin (depth + 1), isGap_margin (depth + 1), isGap_margin depth, rfl⟩

theorem spells_indentedText (h : d.KeysDistinct) (hunpaired : UnpairedIn d) (depth : Nat) :
    Spells d (indentedText depth d) := by
  induction hunpaired generalizing depth with
  | scalar hv => exact spells_scalar _ hv
  | list hitems ih =>
    rw [indentedText, indentedItems_eq_map]
    have hdistinct := Datum.keysDistinct_list.1 h
    obtain ⟨_, _, _, hgap, hgap', hgap'', heq⟩ := exists_stacked '[' ']' depth _
    exact heq ▸ spells_list hgap hgap' hgap'' (forall₂_spells fun d hd => ih d hd (hdistinct d hd) (depth + 1))
  | map hkeys hentries ih =>
    rw [indentedText, indentedEntries_eq_map]
    obtain ⟨hnodup, hdistinct⟩ := Datum.keysDistinct_map.1 h
    obtain ⟨_, _, _, hgap, hgap', hgap'', heq⟩ := exists_stacked '\x7b' '\x7d' depth _
    exact heq ▸ spells_map hgap hgap' hgap''
      (forall₂_spellsEntry hkeys fun e he => ih e he (hdistinct e he) (depth + 1)) hnodup

theorem read?_of_spells (h : Spells d cs) : read? cs = some d := by
  obtain ⟨c, more, rfl, hc, -⟩ := h.exists_cons
  have hread := h (2 * (c :: more).length + 2) [] (by omega) endsNumeral_nil
  rw [List.append_nil] at hread
  rw [read?, skipGap_cons hc, hread]
  rfl

/-- **The plain form is read back.** -/
theorem read?_plain (h : d.KeysDistinct) (hunpaired : UnpairedIn d) : read? (plain d).toList = some d := by
  rw [plain, String.toList_ofList]
  exact read?_of_spells (spells_plainText h hunpaired)

/-- **The indented form is read back.** -/
theorem read?_indented (h : d.KeysDistinct) (hunpaired : UnpairedIn d) : read? (indented d).toList = some d := by
  rw [indented, String.toList_ofList]
  exact read?_of_spells (spells_indentedText h hunpaired 0)

/-! ### What is read has no pairs -/

theorem unpairedIn_of_word? (h : word? cs = some (v, rest)) : UnpairedIn (.scalar v) := by
  obtain ⟨⟨word, w⟩, hmem, hfound⟩ := List.exists_of_findSome?_eq_some h
  obtain ⟨-, heq⟩ := Option.ite_none_right_eq_some.1 hfound
  obtain ⟨rfl, -⟩ := Prod.mk.inj (Option.some.inj heq)
  refine .scalar fun s hs => ?_
  subst hs
  simp [words] at hmem

theorem unpairedIn_ofValue (v : Value) : UnpairedIn (.scalar (.ofValue v)) := by
  refine .scalar fun s hs => ?_
  cases v <;> cases hs
  exact unpaired_codes _

theorem unpairedIn_of_scalar? (h : scalar? cs = some (v, rest)) : UnpairedIn (.scalar v) := by
  rw [scalar?.eq_def] at h
  split at h
  next =>
    obtain ⟨⟨text, behind⟩, hread, heq⟩ := Option.map_eq_some_iff.1 h
    cases heq
    exact unpairedIn_text.2 (unpaired_of_unquote? hread)
  next =>
    cases hword : word? cs with
    | some found =>
      rw [hword] at h
      cases h
      exact unpairedIn_of_word? hword
    | none =>
      rw [hword] at h
      obtain ⟨⟨w, behind⟩, -, heq⟩ := Option.map_eq_some_iff.1 h
      cases heq
      exact unpairedIn_ofValue w

theorem unpairedIn_put {key : CodeText} (hbase : UnpairedIn (.map entries)) (hkey : Unpaired key)
    (hd : UnpairedIn d) : UnpairedIn (.map (Datum.put entries key d)) := by
  obtain ⟨hkeys, hvalues⟩ := unpairedIn_map.1 hbase
  by_cases hmem : key ∈ entries.map Prod.fst
  · rw [Datum.put_of_mem hmem]
    refine .map ?_ ?_ <;> refine List.forall_mem_map.2 fun e he => ?_ <;> split
    · exact hkey
    · exact hkeys e he
    · exact hd
    · exact hvalues e he
  · rw [Datum.put_of_notMem hmem]
    exact .map (List.forall_mem_append.2 ⟨hkeys, by simpa using hkey⟩)
      (List.forall_mem_append.2 ⟨hvalues, by simpa using hd⟩)

theorem unpairedIn_entriesOf (h : UnpairedIn (.map entries)) : UnpairedIn (.map (entriesOf entries)) := by
  obtain ⟨hkeys, hvalues⟩ := unpairedIn_map.1 h
  rw [entriesOf]
  refine List.foldlRecOn entries _ (motive := fun found => UnpairedIn (.map found)) (.map nofun nofun) ?_
  exact fun found hfound e he => unpairedIn_put hfound (hkeys e he) (hvalues e he)

theorem unpairedIn_of_value?_succ
    (hitems : ∀ {cs rest items}, items? fuel cs = some (items, rest) → UnpairedIn (.list items))
    (hentries : ∀ {cs rest entries}, entries? fuel cs = some (entries, rest) → UnpairedIn (.map entries))
    (h : value? (fuel + 1) cs = some (d, rest)) : UnpairedIn d := by
  rw [value?.eq_def] at h
  split at h
  next => contradiction
  next heq =>
    obtain rfl := Nat.succ.inj heq
    split at h
    next =>
      cases h
      exact .list nofun
    next =>
      obtain ⟨⟨items, behind⟩, hread, heq⟩ := Option.map_eq_some_iff.1 h
      cases heq
      exact hitems hread
  next heq =>
    obtain rfl := Nat.succ.inj heq
    split at h
    next =>
      cases h
      exact .map nofun nofun
    next =>
      obtain ⟨⟨entries, behind⟩, hread, heq⟩ := Option.map_eq_some_iff.1 h
      cases heq
      exact unpairedIn_entriesOf (hentries hread)
  next =>
    obtain ⟨⟨v, behind⟩, hread, heq⟩ := Option.map_eq_some_iff.1 h
    cases heq
    exact unpairedIn_of_scalar? hread

theorem unpairedIn_of_items?_succ (hvalue : ∀ {cs rest d}, value? fuel cs = some (d, rest) → UnpairedIn d)
    (hitems : ∀ {cs rest items}, items? fuel cs = some (items, rest) → UnpairedIn (.list items))
    (h : items? (fuel + 1) cs = some (items, rest)) : UnpairedIn (.list items) := by
  rw [items?] at h
  split at h
  next => cases h
  next d behind hfirst =>
    split at h
    next =>
      obtain ⟨⟨more, behind⟩, hread, heq⟩ := Option.map_eq_some_iff.1 h
      cases heq
      exact .list (List.forall_mem_cons.2 ⟨hvalue hfirst, unpairedIn_list.1 (hitems hread)⟩)
    next =>
      cases h
      exact .list (List.forall_mem_singleton.2 (hvalue hfirst))
    next => cases h

theorem unpairedIn_of_entries?_succ (hvalue : ∀ {cs rest d}, value? fuel cs = some (d, rest) → UnpairedIn d)
    (hentries : ∀ {cs rest entries}, entries? fuel cs = some (entries, rest) → UnpairedIn (.map entries))
    (h : entries? (fuel + 1) cs = some (entries, rest)) : UnpairedIn (.map entries) := by
  rw [entries?.eq_def] at h
  split at h
  next => contradiction
  next heq =>
    obtain rfl := Nat.succ.inj heq
    split at h
    next => cases h
    next key _ hkey =>
      have hunpaired := unpaired_of_unquote? hkey
      split at h
      next =>
        split at h
        next => cases h
        next d behind hfirst =>
          split at h
          next =>
            obtain ⟨⟨more, behind⟩, hread, heq⟩ := Option.map_eq_some_iff.1 h
            cases heq
            obtain ⟨hkeys, hvalues⟩ := unpairedIn_map.1 (hentries hread)
            exact .map (List.forall_mem_cons.2 ⟨hunpaired, hkeys⟩) (List.forall_mem_cons.2 ⟨hvalue hfirst, hvalues⟩)
          next =>
            cases h
            exact .map (List.forall_mem_singleton.2 hunpaired) (List.forall_mem_singleton.2 (hvalue hfirst))
          next => cases h
      next => cases h
  next => cases h

theorem unpairedIn_of_steps (fuel : Nat) :
    (∀ {cs rest d}, value? fuel cs = some (d, rest) → UnpairedIn d) ∧
    (∀ {cs rest items}, items? fuel cs = some (items, rest) → UnpairedIn (.list items)) ∧
    ∀ {cs rest entries}, entries? fuel cs = some (entries, rest) → UnpairedIn (.map entries) := by
  induction fuel with
  | zero => exact ⟨nofun, nofun, nofun⟩
  | succ fuel ih =>
    obtain ⟨hvalue, hitems, hentries⟩ := ih
    exact ⟨unpairedIn_of_value?_succ hitems hentries, unpairedIn_of_items?_succ hvalue hitems,
      unpairedIn_of_entries?_succ hvalue hentries⟩

/-- **Whatever is read has no pairs.** -/
theorem unpairedIn_of_read? (h : read? cs = some d) : UnpairedIn d := by
  rw [read?] at h
  split at h
  next hread =>
    split at h
    next =>
      cases h
      exact (unpairedIn_of_steps _).1 hread
    next => cases h
  next => cases h

end ForwardChaining.Json
