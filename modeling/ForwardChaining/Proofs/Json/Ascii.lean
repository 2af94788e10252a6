import ForwardChaining.Proofs.Json.Reading

/-!
# The characters of JSON

Numerals, words and quoted texts are printable ASCII, and so is what the layouts put between them, but for the line
feeds of the indented one: `arePlain_plainText` and `areLines_indentedText`.
-/

namespace ForwardChaining

variable {cs : List Char}

theorem AreFigures.arePlain (h : AreFigures cs) : ArePlain cs := fun c hc => by
  have hfigure := h c hc
  simp only [isFigure, Bool.and_eq_true, decide_eq_true_eq] at hfigure
  exact ⟨by omega, by omega⟩

namespace Binary64

theorem arePlain_layout (d : Decimal) : ArePlain (layout d) := by
  have hfigures : AreFigures d.figures := d.isWhole_figures.areFigures
  have hzeros (k : Nat) : ArePlain (List.replicate k '0') := (areFigures_replicate_zero k).arePlain
  rw [layout]
  split
  next =>
    split
    next => exact (hfigures.arePlain.append (hzeros _)).append (by decide)
    split
    next =>
      have htake : AreFigures (d.figures.take (d.leading.toNat + 1)) := fun c hc => hfigures c (List.mem_of_mem_take hc)
      have hdrop : AreFigures (d.figures.drop (d.leading.toNat + 1)) := fun c hc => hfigures c (List.mem_of_mem_drop hc)
      exact htake.arePlain.append (.cons (by decide) hdrop.arePlain)
    next => exact (ArePlain.append (by decide) (hzeros _)).append hfigures.arePlain
  next =>
    have hsize : ArePlain (List.replicate (2 - (Nat.toDigits 10 d.leading.natAbs).length) '0' ++
        Nat.toDigits 10 d.leading.natAbs) := (hzeros _).append (areFigures_toDigits _).arePlain
    have hexponent : ArePlain ('e' :: (if d.leading < 0 then '-' else '+') ::
        (List.replicate (2 - (Nat.toDigits 10 d.leading.natAbs).length) '0' ++
          Nat.toDigits 10 d.leading.natAbs)) :=
      .cons (by decide) (.cons (by split <;> decide) hsize)
    refine ArePlain.append ?_ hexponent
    split
    next first second rest heq =>
      have hall := heq ▸ hfigures.arePlain
      exact .cons (hall _ (by simp)) (.cons (by decide) fun c hc => hall c (List.mem_cons_of_mem _ hc))
    next => exact hfigures.arePlain

theorem arePlain_text (x : Binary64) : ArePlain x.text.toList := by
  have hsigned (negative : Bool) (s : String) (h : ArePlain s.toList) :
      ArePlain (if negative then "-" ++ s else s).toList := by
    split
    next =>
      rw [String.toList_append]
      exact ArePlain.append (by decide : ArePlain ['-']) h
    next => exact h
  match x with
  | nan => exact hsigned _ _ (by decide : ArePlain ['n', 'a', 'n'])
  | infinite negative => exact hsigned _ _ (by decide : ArePlain ['i', 'n', 'f'])
  | finite negative significand exponent parts =>
    refine hsigned _ _ ?_
    split
    next => exact (by decide : ArePlain ['0', '.', '0'])
    next =>
      rw [String.toList_ofList]
      exact arePlain_layout _

end Binary64

theorem arePlain_int (n : Int) : ArePlain (toString n).toList := by
  have hdigits (k : Nat) : ArePlain k.repr.toList := by
    simpa [Nat.repr] using (areFigures_toDigits k).arePlain
  rw [Int.toString_eq_repr, Int.repr_eq_if]
  split
  next => exact hdigits _
  next =>
    rw [String.toList_append]
    exact ArePlain.append (by decide : ArePlain ['-']) (hdigits _)

namespace Json

variable {texts : List (List Char)}

theorem arePlain_scalarText (v : Scalar) : ArePlain (scalarText v) := by
  match v with
  | .text s => exact arePlain_quoted s
  | .int n => exact arePlain_int n
  | .bool true => exact (by decide : ArePlain ['t', 'r', 'u', 'e'])
  | .bool false => exact (by decide : ArePlain ['f', 'a', 'l', 's', 'e'])
  | .null => exact (by decide : ArePlain ['n', 'u', 'l', 'l'])
  | .real .nan => exact (by decide : ArePlain ['N', 'a', 'N'])
  | .real (.infinite true) => exact (by decide : ArePlain ['-', 'I', 'n', 'f', 'i', 'n', 'i', 't', 'y'])
  | .real (.infinite false) => exact (by decide : ArePlain ['I', 'n', 'f', 'i', 'n', 'i', 't', 'y'])
  | .real (.finite ..) => exact Binary64.arePlain_text _

/-- What is joined has the characters of the separator and of the texts. -/
theorem of_mem_joined {P : Char → Prop} {separator : List Char} (hseparator : ∀ c ∈ separator, P c)
    (htexts : ∀ text ∈ texts, ∀ c ∈ text, P c) : ∀ c ∈ joined separator texts, P c := by
  induction texts with
  | nil => nofun
  | cons text texts ih =>
    obtain ⟨htext, htexts⟩ := List.forall_mem_cons.1 htexts
    cases texts with
    | nil => exact htext
    | cons next texts =>
      rw [joined_cons_cons]
      exact List.forall_mem_append.2 ⟨List.forall_mem_append.2 ⟨htext, hseparator⟩, ih htexts⟩

/-- **The plain form is printable ASCII.** -/
theorem arePlain_plainText (d : Datum) : ArePlain (plainText d) := by
  induction d using Datum.induction with
  | scalar v => exact arePlain_scalarText v
  | list items ih =>
    rw [plainText, plainItems_eq_map]
    refine .cons (by decide) (.append (of_mem_joined (by decide : ArePlain [',', ' ']) ?_) (by decide))
    exact List.forall_mem_map.2 ih
  | map entries ih =>
    rw [plainText, plainEntries_eq_map]
    refine .cons (by decide) (.append (of_mem_joined (by decide : ArePlain [',', ' ']) ?_) (by decide))
    simp only [List.forall_mem_map]
    exact fun e he => ((arePlain_scalarText (.text e.1)).append (by decide)).append (ih e he)

theorem areLines_stacked {opening closing : Char} (hopening : IsPlain opening) (hclosing : IsPlain closing)
    (depth : Nat) (htexts : ∀ text ∈ texts, AreLines text) : AreLines (stacked opening closing depth texts) := by
  have hseparator : AreLines (',' :: margin (depth + 1)) :=
    List.forall_mem_cons.2 ⟨.inl (by decide), areLines_indent _⟩
  rw [stacked]
  split
  next => exact ArePlain.areLines (.cons hopening (.cons hclosing nofun))
  next =>
    simp only [AreLines, List.cons_append, List.forall_mem_cons, List.forall_mem_append]
    exact ⟨.inl hopening, ⟨⟨areLines_indent _, of_mem_joined hseparator htexts⟩, areLines_indent _⟩,
      .inl hclosing, nofun⟩

/-- **The indented form is printable ASCII and line feeds.** -/
theorem areLines_indentedText (d : Datum) (depth : Nat) : AreLines (indentedText depth d) := by
  induction d using Datum.induction generalizing depth with
  | scalar v => exact (arePlain_scalarText v).areLines
  | list items ih =>
    rw [indentedText, indentedItems_eq_map]
    exact areLines_stacked (by decide) (by decide) _ (List.forall_mem_map.2 fun d hd => ih d hd _)
  | map entries ih =>
    rw [indentedText, indentedEntries_eq_map]
    refine areLines_stacked (by decide) (by decide) _ (List.forall_mem_map.2 fun e he => ?_)
    exact List.forall_mem_append.2 ⟨((arePlain_scalarText (.text e.1)).append (by decide)).areLines, ih e he _⟩

end Json

end ForwardChaining
