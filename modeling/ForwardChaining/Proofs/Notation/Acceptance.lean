import ForwardChaining.Proofs.Notation.Descent
import ForwardChaining.Proofs.Notation.Scanning

/-!
# What the parser accepts

The descent takes every phrase that is derived, with the derivation's value, and leaves what stands behind it,
`Derivation.isTaken`.  Together with the derivation that every result has, the parser accepts exactly the
sequences of tokens that have a derivation, `parseTokens_eq_ok_iff`.  `parse_grammar_exact` says this of texts.
-/

namespace ForwardChaining.Notation

open Unbounded

variable {g : Goal} {text : List Char}

/-- The descent takes exactly what is derived, and leaves what stands behind it. -/
def Derivation.IsTaken (text : List Char) : {p : Phrase} → Derivation p → Prop
  | .one g, d => ∀ left, (Phrase.one g).EndsBefore left →
      phrase text g (d.tokens ++ left) = pure (d.value, left)
  | .application, d => ∀ left, ∃ (f : Lexeme .identifier) (opening : Lexeme .opening) (inside : List Token),
      d.tokens ++ left = f.1 :: opening.1 :: inside ∧ d.value.functor = f.1.name ∧
        arguments text (opening.1 :: inside) = pure (d.value.args, left)
  | .more g, d => ∀ more, ReadsMore (phrase text g) more → ∀ left, (Phrase.more g).EndsBefore left →
      more (d.tokens ++ left) = pure (d.value, left)
  | .listed .term, d => ∀ (opening : Lexeme .opening) (closing : Lexeme .closing) left,
      arguments text (opening.1 :: (d.tokens ++ closing.1 :: left)) = pure (d.value, left)
  | .listed .fact, d => ∀ (arrow : Lexeme .arrow) left,
      antecedents text (d.tokens ++ arrow.1 :: left) = pure (d.value, arrow.1 :: left)
  | .listed .rule, _ => True
  | .ended g, d => Unbounded.parseTokens g text d.tokens = some (.ok d.value)

namespace Derivation

theorem comesNext_closer_tokens (d : Derivation (.one g)) (left : List Token) :
    comesNext g.closer (d.tokens ++ left) = false :=
  comesNext_eq_false_iff.2 fun token hmem hkind => d.not_endsBefore_tokens ⟨token, hmem, hkind⟩

theorem isTaken {p : Phrase} (d : Derivation p) : d.IsTaken text := by
  induction d with
  | variableName v =>
    intro left _
    simp only [phrase, tokens, List.singleton_append]
    rw [term.eq_def]
    simp [v.2, value]
  | quotation q =>
    intro left _
    simp only [phrase, tokens, List.singleton_append]
    rw [term.eq_def]
    simp [q.2, value]
  | constant c =>
    intro left hleft
    simp only [phrase, tokens, List.singleton_append]
    rw [term.eq_def]
    simp [c.2, value, comesNext_eq_false_iff.2 hleft]
  | compound a ih =>
    intro left _
    obtain ⟨f, opening, inside, htokens, hf, hargs⟩ := ih left
    simp only [phrase, tokens, htokens]
    rw [term.eq_def]
    simp [f.2, comesNext, opening.2, hargs, value, Atom.toTerm, hf]
  | application f opening args closing ih =>
    intro left
    exact ⟨f, opening, _, by simp [tokens], rfl, ih opening closing left⟩
  | bare f =>
    intro left hleft
    simp [phrase, atom, tokens, f.2, value, comesNext_eq_false_iff.2 hleft]
  | applied a ih =>
    intro left _
    obtain ⟨f, opening, inside, htokens, hf, hargs⟩ := ih left
    simp only [phrase, tokens, htokens]
    simp [atom, f.2, comesNext, opening.2, hargs, value, ← hf]
  | rule antecedents arrow consequent iha ihc =>
    intro left hleft
    have hatom : atom text (consequent.tokens ++ left) = pure (consequent.value, left) := ihc left hleft
    simp only [phrase, tokens, List.append_assoc, List.cons_append]
    rw [Unbounded.rule, iha arrow, pure_bind]
    simp [Unbounded.expect, arrow.2, hatom, value]
  | noMore =>
    intro more hmore left hleft
    have hcomma : comesNext .comma left = false :=
      comesNext_eq_false_iff.2 fun token hmem => (hleft token hmem).2
    simp [tokens, hmore left, hcomma, value]
  | more comma next others ihn iho =>
    intro more hmore left hleft
    rw [hmore]
    simp [tokens, comesNext, comma.2, ihn _ (others.endsBefore_tokens_append hleft), iho more hmore left hleft,
      value]
  | @empty g =>
    cases g with
    | term =>
      intro opening closing left
      rw [arguments]
      simp [Unbounded.expect, opening.2, comesNext, closing.2, tokens, value]
    | fact =>
      intro arrow left
      simp [antecedents, comesNext, arrow.2, tokens, value]
    | rule => trivial
  | @list g first others ihf iho =>
    cases g with
    | term =>
      intro opening closing left
      have hends : (Phrase.more .term).EndsBefore (closing.1 :: left) :=
        Phrase.EndsBefore.more_of_listed ⟨_, rfl, closing.2⟩
      have hclosing : comesNext .closing (first.tokens ++ (others.tokens ++ closing.1 :: left)) = false :=
        first.comesNext_closer_tokens _
      have hfirst : term text (first.tokens ++ (others.tokens ++ closing.1 :: left)) =
          pure (first.value, others.tokens ++ closing.1 :: left) :=
        ihf _ (others.endsBefore_tokens_append hends)
      simp only [tokens, List.append_assoc]
      rw [arguments]
      simp [Unbounded.expect, opening.2, hclosing, hfirst, iho _ (readsMore_moreTerms text) _ hends, closing.2,
        value]
    | fact =>
      intro arrow left
      have hends : (Phrase.more .fact).EndsBefore (arrow.1 :: left) :=
        Phrase.EndsBefore.more_of_listed ⟨_, rfl, arrow.2⟩
      have harrow : comesNext .arrow (first.tokens ++ (others.tokens ++ arrow.1 :: left)) = false :=
        first.comesNext_closer_tokens _
      have hfirst : atom text (first.tokens ++ (others.tokens ++ arrow.1 :: left)) =
          pure (first.value, others.tokens ++ arrow.1 :: left) :=
        ihf _ (others.endsBefore_tokens_append hends)
      simp [tokens, antecedents, harrow, hfirst, iho _ (readsMore_moreAtoms text) _ hends, value]
    | rule => trivial
  | undotted d ih =>
    have hphrase := ih [] Phrase.endsBefore_nil
    rw [List.append_nil] at hphrase
    rw [IsTaken, tokens, Unbounded.parseTokens, hphrase]
    rfl
  | dotted d dot ih =>
    rw [IsTaken, tokens, Unbounded.parseTokens, ih _ (Phrase.endsBefore_dot dot)]
    simp [finish, comesNext, dot.2]
    rfl

theorem parseTokens_tokens (d : Derivation (.ended g)) (text : List Char) :
    parseTokens g text d.tokens = .ok d.value := by
  have h : Unbounded.parseTokens g text d.tokens = some (.ok d.value) := d.isTaken
  exact Option.some.inj ((unbounded_parseTokens_eq text d.tokens).symm.trans h)

end Derivation

theorem parseTokens_eq_ok_iff {text : List Char} {tokens : List Token} {v : g.Result} :
    parseTokens g text tokens = .ok v ↔ ∃ d : Derivation (.ended g), d.tokens = tokens ∧ d.value = v := by
  constructor
  · exact exists_derivation_of_parseTokens
  · rintro ⟨d, rfl, rfl⟩
    exact d.parseTokens_tokens text

/-! ### Texts -/

theorem parse_of_scan {text : List Char} {tokens : List Token} (h : scan text = .ok tokens) :
    parse g text = parseTokens g text tokens := by
  rw [parse, tokensOf, h]

theorem parse_of_scan_error {text : List Char} {p : Nat} (h : scan text = .error p) :
    parse g text = .error ⟨.strayCharacter (text[p]?.getD ' '), text, some p⟩ := by
  rw [parse, tokensOf, h]

/-- The loop over lexemes and the descent behind it come to an end, with what the parser answers. -/
theorem unbounded_parse_eq (g : Goal) (text : List Char) : Unbounded.parse g text = some (parse g text) := by
  have hscan : Unbounded.scan 0 text = some (scan text) := unbounded_scan_eq 0 text
  rw [Unbounded.parse, hscan]
  cases h : scan text with
  | error p =>
    rw [parse_of_scan_error h]
    rfl
  | ok tokens =>
    rw [parse_of_scan h, ← unbounded_parseTokens_eq]
    rfl

/-- The outcome for a text is the one that the grammar prescribes. -/
structure ObeysGrammar (g : Goal) (text : String) (outcome : Except ParseError g.Result) : Prop where
  /-- The loop over lexemes and the recursive descent, which nothing bounds, come to this outcome. -/
  ends : Unbounded.parse g text.toList = some outcome
  /-- A result is the value of a derivation of the tokens, and every derivation gives a result. -/
  accepts : ∀ tokens, scan text.toList = .ok tokens → ∀ v,
    outcome = .ok v ↔ ∃ d : Derivation (.ended g), d.tokens = tokens ∧ d.value = v
  /-- The tokens have no second derivation. -/
  unambiguous : ∀ d d' : Derivation (.ended g), d.tokens = d'.tokens → d = d'
  /-- A text without tokens, or whose tokens have no derivation, is an error. -/
  refuses : (∀ d : Derivation (.ended g), scan text.toList ≠ .ok d.tokens) → ∃ e, outcome = .error e

theorem parse_obeysGrammar (g : Goal) (text : String) : ObeysGrammar g text (parse g text.toList) where
  ends := unbounded_parse_eq g text.toList
  accepts tokens htokens v := by
    rw [parse_of_scan htokens]
    exact parseTokens_eq_ok_iff
  unambiguous _ _ h := Derivation.tokens_injective h
  refuses h := by
    cases hscan : scan text.toList with
    | error p => exact ⟨_, parse_of_scan_error hscan⟩
    | ok tokens =>
      rw [parse_of_scan hscan]
      cases hparse : parseTokens g text.toList tokens with
      | error e => exact ⟨e, rfl⟩
      | ok v =>
        obtain ⟨d, rfl, -⟩ := parseTokens_eq_ok_iff.1 hparse
        exact absurd hscan (h d)

/-- **The parser accepts exactly its grammar.** Whatever the text, terms, facts and rules are read as the
grammar prescribes. -/
theorem parse_grammar_exact (text : String) :
    ObeysGrammar .term text (parseTerm text) ∧ ObeysGrammar .fact text (parseFact text) ∧
      ObeysGrammar .rule text (parseRule text) :=
  ⟨parse_obeysGrammar .term text, parse_obeysGrammar .fact text, parse_obeysGrammar .rule text⟩

/-- A functor without arguments inside of another one, with a dot at the end; and a text without tokens. -/
theorem parse_grammar_exact_nested :
    (∃ d : Derivation (.ended .term), scan "f(g(), ?x).".toList = .ok d.tokens) ∧
      parseTerm "f(g(), ?x)." = .ok (.app "f" [.app "g" [], .var "x"]) ∧
      scan "a = b".toList = .error 2 ∧ ∃ e, parseFact "a = b" = .error e := by
  let f : Lexeme .identifier := ⟨⟨.identifier, ['f'], 0⟩, rfl⟩
  let g : Lexeme .identifier := ⟨⟨.identifier, ['g'], 2⟩, rfl⟩
  let v : Lexeme .variableName := ⟨⟨.variableName, ['?', 'x'], 7⟩, rfl⟩
  let inner : Derivation .application :=
    .application g ⟨⟨.opening, ['('], 3⟩, rfl⟩ .empty ⟨⟨.closing, [')'], 4⟩, rfl⟩
  let args : Derivation (.listed .term) :=
    .list (.compound inner) (.more ⟨⟨.comma, [','], 5⟩, rfl⟩ (.variableName v) .noMore)
  let outer : Derivation .application :=
    .application f ⟨⟨.opening, ['('], 1⟩, rfl⟩ args ⟨⟨.closing, [')'], 9⟩, rfl⟩
  let d : Derivation (.ended .term) := .dotted (.compound outer) ⟨⟨.dot, ['.'], 10⟩, rfl⟩
  have hscan : scan "f(g(), ?x).".toList = .ok d.tokens := by decide
  have hstray : scan "a = b".toList = .error 2 := by decide
  refine ⟨⟨d, hscan⟩, ?_, hstray, ?_⟩
  · exact ((parse_grammar_exact "f(g(), ?x).").1.accepts _ hscan _).2 ⟨d, rfl, rfl⟩
  · exact (parse_grammar_exact "a = b").2.1.refuses fun d h => absurd (hstray.symm.trans h) (by simp)

end ForwardChaining.Notation
