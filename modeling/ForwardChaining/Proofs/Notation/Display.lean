import ForwardChaining.Proofs.Notation.Acceptance
import ForwardChaining.Term.Display

/-!
# Reading a display

A display is written in the notation that is read, but what it says can be read in another way: a constant may
look like a number or a variable, and a functor without arguments looks like a constant.  On plain terms this
cannot happen.  Their names are identifiers, and a functor inside of them has arguments.

`Phrase.Spells` says that a text is scanned as the tokens of a derivation with a given value, at every position
and whatever stands behind it.  The displays of plain terms, atoms and rules spell what they display, and so
they are read as it.
-/

namespace ForwardChaining

open Notation

/-! ### Plain terms -/

/-- Letters, digits and underscores, one at least. -/
def IsIdentifier (s : String) : Prop := s ≠ "" ∧ ∀ c ∈ s.toList, isNameChar c = true

instance (s : String) : Decidable (IsIdentifier s) :=
  decidable_of_iff (s ≠ "" ∧ s.toList.all isNameChar) (by simp [IsIdentifier])

/-- A letter or an underscore, with letters, digits and underscores behind it. -/
def IsVariableName (s : String) : Prop :=
  ∃ c cs, s.toList = c :: cs ∧ isNameStart c = true ∧ ∀ c ∈ cs, isNameChar c = true

/-- All names are identifiers, and every functor has arguments. -/
inductive Term.IsPlain : Term → Prop where
  | var {v : String} (hv : IsVariableName v) : IsPlain (.var v)
  | const {s : String} (hs : IsIdentifier s) : IsPlain (.const (.text s))
  | app {f : String} {args : List Term} (hf : IsIdentifier f) (hne : args ≠ [])
      (hargs : ∀ t ∈ args, IsPlain t) : IsPlain (.app f args)

/-- The functor, which may do without arguments, is an identifier, and the arguments are plain. -/
structure Atom.IsPlain (a : Atom) : Prop where
  functor : IsIdentifier a.functor
  args : ∀ t ∈ a.args, t.IsPlain

/-- All atoms are plain. -/
structure Rule.IsPlain (r : Rule) : Prop where
  antecedents : ∀ a ∈ r.antecedents, a.IsPlain
  consequent : r.consequent.IsPlain

/-- The rule without its name. -/
def Rule.unnamed (r : Rule) : Rule := { r with name := "" }

theorem Rule.unnamed_beq (r : Rule) : (r.unnamed == r) = true := Rule.beq_iff.2 ⟨BEq.refl _, BEq.refl _⟩

namespace Notation

variable {g : Goal}

/-- Wherever it stands, the text is scanned as the tokens of a derivation with the value. -/
def Phrase.Spells (p : Phrase) (s : List Char) (v : p.Value) : Prop :=
  ∀ position, ∃ d : Derivation p, d.value = v ∧ Scans s position d.tokens

theorem spells_variable {v : String} (hv : IsVariableName v) :
    (Phrase.one .term).Spells ("?" ++ v).toList (.var v) := by
  intro position
  obtain ⟨c, cs, hlist, hstart, hname⟩ := hv
  obtain ⟨token, htext, hscans⟩ := Scans.variableName position hstart hname
  refine ⟨.variableName token, ?_, ?_⟩
  · simp [Derivation.value, htext, ← hlist]
  · rw [String.toList_append, hlist]
    exact hscans

theorem scans_identifier {s : String} (hs : IsIdentifier s) (position : Nat) :
    ∃ token : Lexeme .identifier, token.1.name = s ∧ Scans s.toList position [token.1] := by
  obtain ⟨token, htext, hscans⟩ := Scans.name position (s := s.toList) (by simpa using hs.1) hs.2
  exact ⟨token, by simp [Token.name, htext], hscans⟩

theorem spells_constant {s : String} (hs : IsIdentifier s) :
    (Phrase.one .term).Spells s.toList (.const (.text s)) := by
  intro position
  obtain ⟨token, rfl, hscans⟩ := scans_identifier hs position
  exact ⟨.constant token, rfl, hscans⟩

theorem spells_bare {f : String} (hf : IsIdentifier f) : (Phrase.one .fact).Spells f.toList ⟨f, []⟩ := by
  intro position
  obtain ⟨token, rfl, hscans⟩ := scans_identifier hf position
  exact ⟨.bare token, rfl, hscans⟩

theorem Phrase.Spells.spaced {p : Phrase} {s gap gap' : List Char} {v : p.Value} (hgap : IsGap gap)
    (hgap' : IsGap gap') (h : p.Spells s v) : p.Spells (gap ++ (s ++ gap')) v := by
  intro position
  obtain ⟨d, hd, hscans⟩ := h (position + gap.length)
  exact ⟨d, hd, hscans.spaced hgap hgap'⟩

theorem spells_listed (first : List Char × g.Result) (others : List (List Char × g.Result))
    (h : ∀ a ∈ first :: others, (Phrase.one g).Spells a.1 a.2) :
    (Phrase.listed g).Spells ([','].intercalate ((first :: others).map Prod.fst))
      ((first :: others).map Prod.snd) := by
  suffices hlist : ∀ position, ∃ (d : Derivation (.one g)) (e : Derivation (.more g)),
      d.value = first.2 ∧ e.value = others.map Prod.snd ∧
        Scans ([','].intercalate ((first :: others).map Prod.fst)) position (d.tokens ++ e.tokens) by
    intro position
    obtain ⟨d, e, hd, he, hscans⟩ := hlist position
    exact ⟨.list d e, by rw [Derivation.value, hd, he]; rfl, hscans⟩
  induction others generalizing first with
  | nil =>
    intro position
    obtain ⟨d, hd, hscans⟩ := h first (by simp) position
    exact ⟨d, .noMore, hd, rfl, by simpa [Derivation.tokens] using hscans⟩
  | cons second others ih =>
    intro position
    obtain ⟨d, hd, hscans⟩ := h first (by simp) position
    obtain ⟨next, e, hnext, he, hrest⟩ := ih second (fun a ha => h a (by simp [ha])) _
    obtain ⟨comma, -, hcomma⟩ := Scans.token_append .comma [','] (fun _ _ => rfl) hrest
    refine ⟨d, .more comma next e, hd, by rw [Derivation.value, hnext, he]; rfl, ?_⟩
    have happend := hscans.append (fun rest _ => boundary_cons rfl) hcomma
    simpa [Derivation.tokens, List.intercalate_cons_cons] using happend

theorem toList_commaSeparated (s : String) (l : List String) :
    (commaSeparated (s :: l)).toList = [','].intercalate (s.toList :: l.map fun t => ' ' :: t.toList) := by
  induction l generalizing s with
  | nil => simp [commaSeparated]
  | cons t l ih =>
    rw [commaSeparated, String.toList_append, String.toList_append, ih, List.map_cons,
      List.intercalate_cons_cons]
    cases l <;> simp [List.intercalate_cons_cons]

theorem spells_commaSeparated {display : g.Result → String} (x : g.Result) (xs : List g.Result)
    (h : ∀ y ∈ x :: xs, (Phrase.one g).Spells (display y).toList y) :
    (Phrase.listed g).Spells (commaSeparated ((x :: xs).map display)).toList (x :: xs) := by
  have hlist := spells_listed ((display x).toList, x) (xs.map fun y => (' ' :: (display y).toList, y)) ?_
  · simpa [toList_commaSeparated, Function.comp_def] using hlist
  · simp only [List.forall_mem_cons, List.forall_mem_map]
    refine ⟨h x (by simp), fun y hy => ?_⟩
    simpa using (h y (by simp [hy])).spaced (.blank (c := ' ') rfl .nil) .nil

theorem spells_parenthesized {f : String} {gap inside : List Char} {args : List Term} (hf : IsIdentifier f)
    (hgap : IsGap gap) (h : (Phrase.listed .term).Spells inside args) :
    Phrase.application.Spells (f.toList ++ (gap ++ '(' :: (inside ++ [')']))) ⟨f, args⟩ := by
  intro position
  obtain ⟨name, rfl, hname⟩ := scans_identifier hf position
  obtain ⟨d, hd, hlist⟩ := h _
  obtain ⟨closing, -, hclosing⟩ := Scans.token_append .closing [')'] (fun _ _ => rfl) Scans.nil
  obtain ⟨opening, -, hopening⟩ := Scans.token_append .opening ['('] (fun _ _ => rfl)
    (hlist.append (fun rest _ => boundary_cons rfl) hclosing)
  refine ⟨.application name opening d closing, by rw [Derivation.value, hd], ?_⟩
  have happend := hname.append (fun rest _ => ?_) (hopening.spaced hgap .nil)
  · simpa [Derivation.tokens] using happend
  · rw [List.append_assoc]
    exact hgap.boundary_append (boundary_cons rfl)

theorem spells_application {f : String} {args : List Term} (hf : IsIdentifier f) (hne : args ≠ [])
    (hargs : ∀ t ∈ args, (Phrase.one .term).Spells t.display.toList t) :
    Phrase.application.Spells (Term.app f args).display.toList ⟨f, args⟩ := by
  obtain ⟨t, ts, rfl⟩ := List.exists_cons_of_ne_nil hne
  have hspells := spells_parenthesized hf .nil (spells_commaSeparated (g := .term) t ts hargs)
  simpa [Term.display, Term.displayAll_eq_map] using hspells

end Notation

theorem Term.IsPlain.spells {t : Term} (h : t.IsPlain) : (Phrase.one .term).Spells t.display.toList t := by
  induction h with
  | var hv => exact spells_variable hv
  | const hs => exact spells_constant hs
  | app hf hne _ ih =>
    intro position
    obtain ⟨a, ha, hscans⟩ := spells_application hf hne ih position
    exact ⟨.compound a, by rw [Derivation.value, ha]; rfl, hscans⟩

theorem Atom.IsPlain.spells {a : Atom} (h : a.IsPlain) : (Phrase.one .fact).Spells a.display.toList a := by
  obtain ⟨f, args⟩ := a
  by_cases hne : args = []
  · subst hne
    simpa [Atom.display, Atom.toTerm, Term.display] using spells_bare h.functor
  · intro position
    obtain ⟨a, ha, hscans⟩ := spells_application h.functor hne (fun t ht => (h.args t ht).spells) position
    exact ⟨.applied a, ha, hscans⟩

theorem commaSeparated_cons_ne_empty {s : String} (hs : s ≠ "") (rest : List String) :
    commaSeparated (s :: rest) ≠ "" := by
  cases rest <;> simp [commaSeparated, hs]

theorem Atom.IsPlain.display_ne_empty {a : Atom} (h : a.IsPlain) : a.display ≠ "" := by
  rw [Atom.display, Atom.toTerm, Term.display]
  split <;> simp [h.functor.1]

theorem Rule.IsPlain.spells {r : Rule} (h : r.IsPlain) :
    (Phrase.one .rule).Spells r.display.toList r.unnamed := by
  intro position
  obtain ⟨antecedents, consequent, n⟩ := r
  cases antecedents with
  | nil =>
    obtain ⟨c, hc, hscans⟩ := h.consequent.spells _
    obtain ⟨arrow, -, harrow⟩ := Scans.token_append .arrow ['=', '>'] (fun _ _ => rfl) hscans.blank_cons
    refine ⟨.rule .empty arrow c, by rw [Derivation.value, hc]; rfl, ?_⟩
    simpa [Rule.display, commaSeparated, Derivation.tokens] using harrow
  | cons a as =>
    have hne := commaSeparated_cons_ne_empty (h.antecedents a (by simp)).display_ne_empty (as.map Atom.display)
    obtain ⟨d, hd, hlist⟩ :=
      spells_commaSeparated (g := .fact) a as (fun b hb => (h.antecedents b hb).spells) position
    obtain ⟨c, hc, hscans⟩ := h.consequent.spells _
    obtain ⟨arrow, -, harrow⟩ := Scans.token_append .arrow ['=', '>'] (fun _ _ => rfl) hscans.blank_cons
    refine ⟨.rule d arrow c, by rw [Derivation.value, hd, hc]; rfl, ?_⟩
    have happend := hlist.append (fun rest _ => boundary_cons rfl) harrow.blank_cons
    simpa [Rule.display, hne, Derivation.tokens] using happend

/-! ### Reading -/

namespace Notation

theorem Phrase.Spells.scan {p : Phrase} {s : List Char} {v : p.Value} (h : p.Spells s v) :
    ∃ d : Derivation p, d.value = v ∧ scan s = .ok d.tokens := by
  obtain ⟨d, hd, hscans⟩ := h 0
  refine ⟨d, hd, ?_⟩
  have hscan := hscans [] boundary_nil
  rw [List.append_nil, scanFrom] at hscan
  simpa [Notation.scan, Except.map] using hscan

theorem Phrase.Spells.parse {s : List Char} {v : g.Result} (h : (Phrase.one g).Spells s v) :
    parse g s = .ok v := by
  obtain ⟨d, rfl, hscan⟩ := h.scan
  rw [parse_of_scan hscan]
  exact Derivation.parseTokens_tokens (.undotted d) s

end Notation

theorem parseTerm_display {t : Term} (h : t.IsPlain) : parseTerm t.display = .ok t := h.spells.parse

theorem parseFact_display {a : Atom} (h : a.IsPlain) : parseFact a.display = .ok a := h.spells.parse

theorem parseRule_display {r : Rule} (h : r.IsPlain) : parseRule r.display = .ok r.unnamed := h.spells.parse

end ForwardChaining
