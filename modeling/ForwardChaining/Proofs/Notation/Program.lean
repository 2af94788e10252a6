import ForwardChaining.Notation.Program
import ForwardChaining.Proofs.Notation.Display

/-!
# Reading a program

The displays of plain statements, one on a line, are read as these statements.  A display has no line end in it,
so that the lines of the program are the displays.  A line is read as a rule if it has an arrow, and the display
of a rule has one, while no derivation of a fact does.
-/

namespace ForwardChaining

open Notation

/-! ### Lines -/

namespace Text

variable {c : Char} {line rest : List Char} {more : List (List Char)}

theorem lines_cons_of_eq_nil (hc : isLineEnd c = false) (h : lines rest = []) : lines (c :: rest) = [[c]] := by
  rw [lines, hc, h]
  · rfl
  · rintro _ rfl
    exact absurd hc (by decide)

theorem lines_cons_of_eq_cons (hc : isLineEnd c = false) (h : lines rest = line :: more) :
    lines (c :: rest) = (c :: line) :: more := by
  rw [lines, hc, h]
  · rfl
  · rintro _ rfl
    exact absurd hc (by decide)

theorem lines_append (h : ∀ c ∈ line, isLineEnd c = false) (rest : List Char) :
    lines (line ++ '\n' :: rest) = line :: lines rest := by
  induction line with
  | nil => rfl
  | cons c line ih => exact lines_cons_of_eq_cons (h c (by simp)) (ih fun c' hc' => h c' (by simp [hc']))

theorem lines_of_ne_nil (hne : line ≠ []) (h : ∀ c ∈ line, isLineEnd c = false) : lines line = [line] := by
  induction line with
  | nil => exact absurd rfl hne
  | cons c line ih =>
    by_cases hline : line = []
    · subst hline
      exact lines_cons_of_eq_nil (h c (by simp)) rfl
    · exact lines_cons_of_eq_cons (h c (by simp)) (ih hline fun c' hc' => h c' (by simp [hc']))

theorem lines_intercalate (ls : List (List Char)) (hne : ∀ line ∈ ls, line ≠ [])
    (h : ∀ line ∈ ls, ∀ c ∈ line, isLineEnd c = false) : lines (['\n'].intercalate ls) = ls := by
  induction ls with
  | nil => rfl
  | cons line ls ih =>
    cases ls with
    | nil =>
      rw [List.intercalate_singleton]
      exact lines_of_ne_nil (hne line (by simp)) (h line (by simp))
    | cons next ls =>
      rw [List.intercalate_cons_cons, List.append_assoc, List.singleton_append,
        lines_append (h line (by simp)), ih (fun l hl => hne l (by simp [hl])) fun l hl => h l (by simp [hl])]

end Text

/-- The text is part of one line. -/
def IsInline (s : String) : Prop := ∀ c ∈ s.toList, Text.isLineEnd c = false

instance (s : String) : Decidable (IsInline s) :=
  decidable_of_iff (s.toList.all fun c => !Text.isLineEnd c) (by simp [IsInline])

theorem isInline_append {s t : String} (hs : IsInline s) (ht : IsInline t) : IsInline (s ++ t) := by
  intro c hc
  rw [String.toList_append, List.mem_append] at hc
  exact hc.elim (hs c) (ht c)

theorem isInline_commaSeparated {l : List String} (h : ∀ s ∈ l, IsInline s) : IsInline (commaSeparated l) := by
  induction l with
  | nil => simp [IsInline, commaSeparated]
  | cons s l ih =>
    cases l with
    | nil => exact h s (by simp)
    | cons t l =>
      have hcomma : IsInline ", " := by decide
      exact isInline_append (isInline_append (h s (by simp)) hcomma) (ih fun u hu => h u (by simp [hu]))

theorem not_isLineEnd_of_isNameChar {c : Char} (h : isNameChar c = true) : Text.isLineEnd c = false := by
  obtain ⟨hlower, hupper⟩ := toNat_of_isNameChar h
  simp only [Text.isLineEnd]
  grind

theorem IsIdentifier.isInline {s : String} (h : IsIdentifier s) : IsInline s :=
  fun c hc => not_isLineEnd_of_isNameChar (h.2 c hc)

theorem isInline_app {f : String} {args : List Term} (hf : IsInline f)
    (hargs : ∀ t ∈ args, IsInline t.display) : IsInline (Term.app f args).display := by
  rw [Term.display]
  split
  · exact hf
  · have hopening : IsInline "(" := by decide
    have hclosing : IsInline ")" := by decide
    have hlist : IsInline (commaSeparated (Term.displayAll args)) := by
      rw [Term.displayAll_eq_map]
      exact isInline_commaSeparated (by simpa using hargs)
    exact isInline_append (isInline_append (isInline_append hf hopening) hlist) hclosing

theorem Term.IsPlain.isInline {t : Term} (h : t.IsPlain) : IsInline t.display := by
  induction h with
  | var hv =>
    obtain ⟨c, cs, hlist, hstart, hname⟩ := hv
    refine isInline_append (by decide) ?_
    intro c' hc'
    rw [hlist, List.mem_cons] at hc'
    rcases hc' with rfl | hc'
    · exact not_isLineEnd_of_isNameChar (isNameChar_of_isNameStart hstart)
    · exact not_isLineEnd_of_isNameChar (hname c' hc')
  | const hs => exact hs.isInline
  | app hf _ _ ih => exact isInline_app hf.isInline ih

theorem Atom.IsPlain.isInline {a : Atom} (h : a.IsPlain) : IsInline a.display :=
  isInline_app h.functor.isInline fun t ht => (h.args t ht).isInline

theorem Rule.IsPlain.isInline {r : Rule} (h : r.IsPlain) : IsInline r.display := by
  have hbody : IsInline (commaSeparated (r.antecedents.map Atom.display)) := by
    refine isInline_commaSeparated ?_
    simpa using fun a ha => (h.antecedents a ha).isInline
  rw [Rule.display]
  split
  · exact isInline_append (by decide) h.consequent.isInline
  · exact isInline_append (isInline_append hbody (by decide)) h.consequent.isInline

/-! ### Arrows -/

namespace Notation

/-- What the values of a phrase are made of. -/
def Phrase.goal : Phrase → Goal
  | one g => g
  | application => .term
  | more g => g
  | listed g => g
  | ended g => g

theorem Derivation.kind_ne_arrow {p : Phrase} (d : Derivation p) (hp : p.goal ≠ .rule) :
    ∀ token ∈ d.tokens, token.kind ≠ .arrow := by
  induction d with
  | variableName v => simp [tokens, v.2]
  | quotation q => simp [tokens, q.2]
  | constant c => simp [tokens, c.2]
  | compound a ih => exact ih (by decide)
  | application f opening args closing ih =>
    have hargs := ih (by decide)
    simp only [tokens, List.forall_mem_cons, List.forall_mem_append]
    exact ⟨by simp [f.2], by simp [opening.2], hargs, by simp [closing.2]⟩
  | bare f => simp [tokens, f.2]
  | applied a ih => exact ih (by decide)
  | rule antecedents arrow consequent => exact absurd rfl hp
  | noMore => simp [tokens]
  | more comma next others ihn iho =>
    simp only [tokens, List.forall_mem_cons, List.forall_mem_append]
    exact ⟨by simp [comma.2], ihn hp, iho hp⟩
  | empty => simp [tokens]
  | list first others ihf iho =>
    simp only [tokens, List.forall_mem_append]
    exact ⟨ihf hp, iho hp⟩
  | undotted d ih => exact ih hp
  | dotted d dot ih =>
    simp only [tokens, List.forall_mem_append, List.forall_mem_singleton]
    exact ⟨ih hp, by simp [dot.2]⟩

/-! ### Statements -/

namespace Statement

def IsPlain : Statement → Prop
  | fact a => a.IsPlain
  | rule r => r.IsPlain

def display : Statement → String
  | fact a => a.display
  | rule r => r.display

def unnamed : Statement → Statement
  | fact a => fact a
  | rule r => rule r.unnamed

def fact? : Statement → Option Atom
  | fact a => some a
  | rule _ => none

def rule? : Statement → Option Rule
  | fact _ => none
  | rule r => some r

variable {s : Statement}

theorem IsPlain.isInline (h : s.IsPlain) : IsInline s.display := by
  cases s with
  | fact a => exact Atom.IsPlain.isInline h
  | rule r => exact Rule.IsPlain.isInline h

theorem IsPlain.display_ne_empty (h : s.IsPlain) : s.display ≠ "" := by
  cases s with
  | fact a => exact Atom.IsPlain.display_ne_empty h
  | rule r =>
    rw [display, Rule.display]
    split <;> simp

end Statement

/-- A line whose tokens have an arrow is read as a rule. -/
theorem readLine_of_arrow {line : List Char} {tokens : List Token} (hscan : scan line = .ok tokens)
    (harrow : ∃ token ∈ tokens, token.kind = .arrow) :
    readLine line = (parseTokens .rule line tokens).map fun r => some (.rule r) := by
  have hany : (tokens.any fun t => t.kind = .arrow) = true := by simpa using harrow
  cases tokens with
  | nil => simp at hany
  | cons token tokens =>
    rw [readLine, tokensOf, hscan]
    simp only [hany, if_true]

/-- A line with tokens, but without an arrow, is read as a fact. -/
theorem readLine_of_forall_ne_arrow {line : List Char} {tokens : List Token} (hscan : scan line = .ok tokens)
    (hne : tokens ≠ []) (harrow : ∀ token ∈ tokens, token.kind ≠ .arrow) :
    readLine line = (parseTokens .fact line tokens).map fun a => some (.fact a) := by
  have hany : (tokens.any fun t => t.kind = .arrow) = false := by simpa using harrow
  cases tokens with
  | nil => exact absurd rfl hne
  | cons token tokens =>
    rw [readLine, tokensOf, hscan]
    simp only [hany, Bool.false_eq_true, if_false]

theorem readLine_display {s : Statement} (h : s.IsPlain) :
    readLine s.display.toList = .ok (some s.unnamed) := by
  cases s with
  | fact a =>
    obtain ⟨d, rfl, hscan⟩ := (Atom.IsPlain.spells h).scan
    obtain ⟨f, tail, htokens⟩ := d.exists_tokens_eq_name_of_fact
    have hne : d.tokens ≠ [] := by simp [htokens]
    have hparse := Derivation.parseTokens_tokens (.undotted d) d.value.display.toList
    rw [Derivation.tokens] at hparse
    rw [Statement.display, readLine_of_forall_ne_arrow hscan hne (d.kind_ne_arrow (by decide)), hparse]
    rfl
  | rule r =>
    obtain ⟨d, hd, hscan⟩ := (Rule.IsPlain.spells h).scan
    have harrow : ∃ token ∈ d.tokens, token.kind = .arrow := by
      cases d with
      | rule antecedents arrow consequent => exact ⟨arrow.1, by simp [Derivation.tokens], arrow.2⟩
    have hparse := Derivation.parseTokens_tokens (.undotted d) r.display.toList
    rw [Derivation.tokens] at hparse
    rw [Statement.display, readLine_of_arrow hscan harrow, hparse, Derivation.value, hd]
    rfl

theorem readLines_display (number : Nat) (statements : List Statement) (h : ∀ s ∈ statements, s.IsPlain) :
    readLines number (statements.map fun s => s.display.toList) = .ok (statements.map Statement.unnamed) := by
  induction statements generalizing number with
  | nil => rfl
  | cons s statements ih =>
    rw [List.map_cons, readLines, readLine_display (h s (by simp)), List.map_cons]
    simp only [ih (number + 1) fun s hs => h s (by simp [hs])]
    rfl

/-- The program that states the given statements, one on a line. -/
def programText (statements : List Statement) : String :=
  "\n".intercalate (statements.map Statement.display)

theorem lines_programText {statements : List Statement} (h : ∀ s ∈ statements, s.IsPlain) :
    Text.lines (programText statements).toList = statements.map fun s => s.display.toList := by
  have hlist : (programText statements).toList =
      ['\n'].intercalate (statements.map fun s => s.display.toList) := by
    rw [programText, String.toList_intercalate, List.map_map]
    rfl
  rw [hlist]
  refine Text.lines_intercalate _ ?_ ?_
  · simpa using fun s hs => (h s hs).display_ne_empty
  · intro line hline
    obtain ⟨s, hs, rfl⟩ := List.mem_map.1 hline
    exact (h s hs).isInline

theorem ofStatements_map_unnamed (statements : List Statement) :
    Program.ofStatements (statements.map Statement.unnamed) =
      { facts := statements.filterMap Statement.fact?
        rules := (statements.filterMap Statement.rule?).map Rule.unnamed } := by
  rw [Program.ofStatements, List.filterMap_map, List.filterMap_map, List.map_filterMap]
  congr 2
  · funext s
    cases s <;> rfl
  · funext s
    cases s <;> rfl

/-- The displays of plain statements, one on a line, are read as the atoms and the rules among them. -/
theorem parseProgram_programText {statements : List Statement} (h : ∀ s ∈ statements, s.IsPlain) :
    parseProgram (programText statements) =
      .ok { facts := statements.filterMap Statement.fact?
            rules := (statements.filterMap Statement.rule?).map Rule.unnamed } := by
  rw [parseProgram, lines_programText h, readLines_display 1 statements h, ← ofStatements_map_unnamed]
  rfl

end Notation

theorem Rule.map_unnamed_beq (rules : List Rule) : (rules.map Rule.unnamed == rules) = true := by
  induction rules with
  | nil => rfl
  | cons r rules ih =>
    rw [List.map_cons, List.cons_beq_cons, Bool.and_eq_true]
    exact ⟨r.unnamed_beq, ih⟩

/-! ### Displays determine what they display -/

theorem Term.IsPlain.display_injective {t u : Term} (ht : t.IsPlain) (hu : u.IsPlain)
    (h : t.display = u.display) : t = u := by
  have hparse := parseTerm_display ht
  rw [h, parseTerm_display hu] at hparse
  exact (Except.ok.inj hparse).symm

theorem Atom.IsPlain.display_injective {a b : Atom} (ha : a.IsPlain) (hb : b.IsPlain)
    (h : a.display = b.display) : a = b := by
  have hparse := parseFact_display ha
  rw [h, parseFact_display hb] at hparse
  exact (Except.ok.inj hparse).symm

theorem Rule.IsPlain.display_injective {r s : Rule} (hr : r.IsPlain) (hs : s.IsPlain)
    (h : r.display = s.display) : (r == s) = true := by
  have hparse := parseRule_display hr
  rw [h, parseRule_display hs] at hparse
  have heq : s.unnamed = r.unnamed := Except.ok.inj hparse
  exact BEq.trans (BEq.symm r.unnamed_beq) (heq ▸ s.unnamed_beq)

/-- **Displaying and reading are inverse on plain knowledge.** Terms, atoms and rules are read back from their
displays, and so is a program from the displays of its statements, in whatever order they come.  A rule comes
back without its name, which is no part of what it says.  Hence different knowledge has different displays. -/
theorem display_reads_back :
    (∀ t : Term, t.IsPlain → parseTerm t.display = .ok t) ∧
    (∀ a : Atom, a.IsPlain → parseFact a.display = .ok a) ∧
    (∀ r : Rule, r.IsPlain → ∃ s, parseRule r.display = .ok s ∧ (s == r) = true) ∧
    (∀ statements : List Statement, (∀ s ∈ statements, s.IsPlain) →
      ∃ program, parseProgram (programText statements) = .ok program ∧
        program.facts = statements.filterMap Statement.fact? ∧
        (program.rules == statements.filterMap Statement.rule?) = true) ∧
    (∀ t u : Term, t.IsPlain → u.IsPlain → t.display = u.display → t = u) ∧
    (∀ a b : Atom, a.IsPlain → b.IsPlain → a.display = b.display → a = b) ∧
    (∀ r s : Rule, r.IsPlain → s.IsPlain → r.display = s.display → (r == s) = true) := by
  refine ⟨fun t ht => parseTerm_display ht, fun a ha => parseFact_display ha, ?_, ?_,
    fun t u ht hu => ht.display_injective hu, fun a b ha hb => ha.display_injective hb,
    fun r s hr hs => hr.display_injective hs⟩
  · intro r hr
    exact ⟨r.unnamed, parseRule_display hr, r.unnamed_beq⟩
  · intro statements h
    exact ⟨_, parseProgram_programText h, rfl, Rule.map_unnamed_beq _⟩

/-- A program of a rule with a name and of an atom without arguments. -/
theorem display_reads_back_street :
    let street := Term.app "street" [.var "x", .const (.text "7b")]
    let wet := Rule.mk [⟨"rains", [.var "x"]⟩, ⟨"cold", []⟩] ⟨"wet", [street]⟩ "showers"
    parseTerm street.display = .ok street ∧ parseFact (Atom.mk "cold" []).display = .ok ⟨"cold", []⟩ ∧
      (∃ s, parseRule wet.display = .ok s ∧ (s == wet) = true) ∧
      ∃ program, parseProgram (programText [.rule wet, .fact ⟨"cold", []⟩]) = .ok program ∧
        program.facts = [⟨"cold", []⟩] ∧ (program.rules == [wet]) = true := by
  intro street wet
  have hx : (Term.var "x").IsPlain := .var ⟨'x', [], by simp, by decide, by simp⟩
  have hstreet : street.IsPlain := .app (by decide) (by simp) (by simpa using ⟨hx, .const (by decide)⟩)
  have hcold : (Atom.mk "cold" []).IsPlain := ⟨by decide, by simp⟩
  have hwet : wet.IsPlain := by
    refine ⟨?_, by decide, by simpa [wet] using hstreet⟩
    simpa [wet] using ⟨⟨by decide, by simpa using hx⟩, hcold⟩
  obtain ⟨hterm, hfact, hrule, hprogram, -, -, -⟩ := display_reads_back
  refine ⟨hterm street hstreet, hfact _ hcold, hrule wet hwet, ?_⟩
  exact hprogram [.rule wet, .fact ⟨"cold", []⟩] (by simpa using ⟨hwet, hcold⟩)

end ForwardChaining
