import ForwardChaining.Proofs.Notation.Acceptance
import ForwardChaining.Proofs.Notation.Lexemes

/-!
# Where an error is found

The reader refuses a token when it comes and not later, and it refuses none too early.  For one thing, from every
state it can be brought to an end: open argument lists can be closed and what is missing can be given,
`State.exists_read_eq_ok`.  For another, it refuses a token whatever stands behind it, `State.read_eq_error`.
So the tokens before the one that is refused are a prefix of something in the grammar, and together with it they
are not.

Whether tokens are in the grammar depends on their kinds only, `derives_map_kind_iff`.
-/

namespace ForwardChaining.Notation

variable {g : Goal} {tokens : List Token} {problem : Problem} {position : Option Nat}

/-! ### Kinds of tokens -/

def Goal.Derives (g : Goal) (kinds : List TokenKind) : Prop :=
  ∃ d : Derivation (.ended g), d.tokens.map Token.kind = kinds

/-- Something in the grammar begins with the kinds. -/
def Goal.IsViable (g : Goal) (kinds : List TokenKind) : Prop := ∃ more, g.Derives (kinds ++ more)

theorem Lexeme.exists_cons_eq {kind : TokenKind} (a : Lexeme kind) {rest : List Token}
    (h : tokens.map Token.kind = (a.1 :: rest).map Token.kind) :
    ∃ (b : Lexeme kind) (left : List Token), tokens = b.1 :: left ∧ left.map Token.kind = rest.map Token.kind := by
  obtain ⟨token, left, rfl, hkind, hleft⟩ := List.map_eq_cons_iff.1 h
  exact ⟨⟨token, hkind.trans a.2⟩, left, rfl, hleft⟩

theorem Lexeme.exists_singleton_eq {kind : TokenKind} (a : Lexeme kind)
    (h : tokens.map Token.kind = [a.1].map Token.kind) : ∃ b : Lexeme kind, tokens = [b.1] := by
  obtain ⟨b, left, rfl, hleft⟩ := a.exists_cons_eq h
  exact ⟨b, by simpa using hleft⟩

theorem exists_append_eq {first second : List Token}
    (h : tokens.map Token.kind = (first ++ second).map Token.kind) :
    ∃ first' second', tokens = first' ++ second' ∧ first'.map Token.kind = first.map Token.kind ∧
      second'.map Token.kind = second.map Token.kind := by
  rw [List.map_append] at h
  exact List.map_eq_append_iff.1 h

/-- **Other tokens of the same kinds are derived likewise.** -/
theorem Derivation.exists_tokens_eq {p : Phrase} (d : Derivation p)
    (h : tokens.map Token.kind = d.tokens.map Token.kind) : ∃ e : Derivation p, e.tokens = tokens := by
  induction d generalizing tokens with
  | variableName v =>
    obtain ⟨w, rfl⟩ := v.exists_singleton_eq h
    exact ⟨.variableName w, rfl⟩
  | quotation q =>
    obtain ⟨r, rfl⟩ := q.exists_singleton_eq h
    exact ⟨.quotation r, rfl⟩
  | constant c =>
    obtain ⟨c', rfl⟩ := c.exists_singleton_eq h
    exact ⟨.constant c', rfl⟩
  | compound a ih =>
    obtain ⟨a', rfl⟩ := ih h
    exact ⟨.compound a', rfl⟩
  | application f opening args closing ih =>
    obtain ⟨f', behind, rfl, hbehind⟩ := f.exists_cons_eq h
    obtain ⟨opening', inside, rfl, hinside⟩ := opening.exists_cons_eq hbehind
    obtain ⟨inside, last, rfl, hargs, hlast⟩ := exists_append_eq hinside
    obtain ⟨args', rfl⟩ := ih hargs
    obtain ⟨closing', rfl⟩ := closing.exists_singleton_eq hlast
    exact ⟨.application f' opening' args' closing', rfl⟩
  | bare f =>
    obtain ⟨f', rfl⟩ := f.exists_singleton_eq h
    exact ⟨.bare f', rfl⟩
  | applied a ih =>
    obtain ⟨a', rfl⟩ := ih h
    exact ⟨.applied a', rfl⟩
  | rule antecedents arrow consequent iha ihc =>
    obtain ⟨before, behind, rfl, hbefore, hbehind⟩ := exists_append_eq h
    obtain ⟨antecedents', rfl⟩ := iha hbefore
    obtain ⟨arrow', last, rfl, hlast⟩ := arrow.exists_cons_eq hbehind
    obtain ⟨consequent', rfl⟩ := ihc hlast
    exact ⟨.rule antecedents' arrow' consequent', rfl⟩
  | noMore => exact ⟨.noMore, by simpa [Derivation.tokens] using h.symm⟩
  | more comma next others ihn iho =>
    obtain ⟨comma', behind, rfl, hbehind⟩ := comma.exists_cons_eq h
    obtain ⟨first, last, rfl, hfirst, hlast⟩ := exists_append_eq hbehind
    obtain ⟨next', rfl⟩ := ihn hfirst
    obtain ⟨others', rfl⟩ := iho hlast
    exact ⟨.more comma' next' others', rfl⟩
  | empty => exact ⟨.empty, by simpa [Derivation.tokens] using h.symm⟩
  | list first others ihf iho =>
    obtain ⟨before, behind, rfl, hbefore, hbehind⟩ := exists_append_eq h
    obtain ⟨first', rfl⟩ := ihf hbefore
    obtain ⟨others', rfl⟩ := iho hbehind
    exact ⟨.list first' others', rfl⟩
  | undotted d ih =>
    obtain ⟨d', rfl⟩ := ih h
    exact ⟨.undotted d', rfl⟩
  | dotted d dot ih =>
    obtain ⟨before, last, rfl, hbefore, hlast⟩ := exists_append_eq h
    obtain ⟨d', rfl⟩ := ih hbefore
    obtain ⟨dot', rfl⟩ := dot.exists_singleton_eq hlast
    exact ⟨.dotted d' dot', rfl⟩

theorem readTokens_eq_ok_iff {v : g.Result} :
    readTokens g tokens = .ok v ↔ ∃ d : Derivation (.ended g), d.tokens = tokens ∧ d.value = v := by
  rw [← @parseTokens_eq_ok_iff g [] tokens v, parseTokens]
  cases readTokens g tokens <;> simp

/-- **Tokens are in the grammar if the reader takes them**, and then all tokens of these kinds are. -/
theorem derives_map_kind_iff : g.Derives (tokens.map Token.kind) ↔ ∃ v, readTokens g tokens = .ok v := by
  constructor
  · rintro ⟨d, hd⟩
    obtain ⟨e, he⟩ := d.exists_tokens_eq hd.symm
    exact ⟨e.value, readTokens_eq_ok_iff.2 ⟨e, he, rfl⟩⟩
  · rintro ⟨v, hv⟩
    obtain ⟨d, rfl, -⟩ := readTokens_eq_ok_iff.1 hv
    exact ⟨d, rfl⟩

/-! ### Completions -/

def someToken (kind : TokenKind) : Token := { kind, text := [], position := 0 }

theorem Stage.exists_read_eq_ok (stage : Stage g) : ∃ more v, (State.top stage).read more = .ok v := by
  cases stage with
  | term => exact ⟨[someToken .identifier], _, rfl⟩
  | fact => exact ⟨[someToken .identifier], _, rfl⟩
  | ruleStart => exact ⟨[someToken .arrow, someToken .identifier], _, rfl⟩
  | antecedent before => exact ⟨[someToken .identifier, someToken .arrow, someToken .identifier], _, rfl⟩
  | arrow antecedents => exact ⟨[someToken .arrow, someToken .identifier], _, rfl⟩
  | consequent antecedents => exact ⟨[someToken .identifier], _, rfl⟩
  | complete result => exact ⟨[], result, rfl⟩
  | closed result => exact ⟨[], result, rfl⟩

theorem State.exists_read_close_eq_ok (stage : Stage g) (outer : List Frame) (inner : Frame) :
    ∃ more v, (State.close stage outer inner).read more = .ok v := by
  induction outer generalizing inner with
  | nil => exact (stage.receive inner.atom).exists_read_eq_ok
  | cons frame outer ih =>
    obtain ⟨more, v, hread⟩ := ih (frame.push inner.atom.toTerm)
    exact ⟨someToken .closing :: more, v, hread⟩

/-- **From every state the reader can be brought to an end.** -/
theorem State.exists_read_eq_ok (state : State g) : ∃ more v, state.read more = .ok v := by
  cases state with
  | top stage => exact stage.exists_read_eq_ok
  | name stage f =>
    obtain ⟨more, v, hread⟩ := State.exists_read_close_eq_ok stage [] ⟨f, []⟩
    exact ⟨someToken .opening :: someToken .closing :: more, v, hread⟩
  | inside stage outer inner place =>
    cases place with
    | first =>
      obtain ⟨more, v, hread⟩ := State.exists_read_close_eq_ok stage outer inner
      exact ⟨someToken .closing :: more, v, hread⟩
    | next =>
      obtain ⟨more, v, hread⟩ :=
        State.exists_read_close_eq_ok stage outer (inner.push (.const (.text (someToken .identifier).name)))
      exact ⟨someToken .identifier :: someToken .closing :: more, v, hread⟩
    | name f =>
      obtain ⟨more, v, hread⟩ := State.exists_read_close_eq_ok stage outer (inner.push (.const (.text f)))
      exact ⟨someToken .closing :: more, v, hread⟩
    | after =>
      obtain ⟨more, v, hread⟩ := State.exists_read_close_eq_ok stage outer inner
      exact ⟨someToken .closing :: more, v, hread⟩

/-! ### Refusals -/

/-- The tokens bring the reader from one state to the other. -/
def State.LeadsTo (state : State g) (tokens : List Token) (next : State g) : Prop :=
  ∀ more, state.read (tokens ++ more) = next.read more

/-- **A reader that fails was led to a state that refuses the next token**, or the end of the tokens. -/
theorem State.read_eq_error {state : State g} (h : state.read tokens = .error (problem, position)) :
    (∃ before token after next, tokens = before ++ token :: after ∧ position = some token.position ∧
      state.LeadsTo before next ∧ next.step token = .error problem) ∨
    ∃ next, position = none ∧ state.LeadsTo tokens next ∧ next.finish = .error problem := by
  induction tokens generalizing state with
  | nil =>
    rw [State.read] at h
    cases hfinish : state.finish with
    | ok v =>
      rw [hfinish] at h
      cases h
    | error problem' =>
      rw [hfinish] at h
      cases h
      exact .inr ⟨state, rfl, fun _ => rfl, hfinish⟩
  | cons token tokens ih =>
    cases hstep : state.step token with
    | error problem' =>
      rw [State.read_cons_of_error hstep] at h
      cases h
      exact .inl ⟨[], token, tokens, state, rfl, rfl, fun _ => rfl, hstep⟩
    | ok next =>
      have hleads {before : List Token} {last : State g} (hnext : next.LeadsTo before last) :
          state.LeadsTo (token :: before) last :=
        fun more => (State.read_cons_of_ok hstep).trans (hnext more)
      rw [State.read_cons_of_ok hstep] at h
      rcases ih h with ⟨before, other, after, last, rfl, hposition, hlast, hother⟩ | ⟨last, hposition, hlast, hfinish⟩
      · exact .inl ⟨token :: before, other, after, last, rfl, hposition, hleads hlast, hother⟩
      · exact .inr ⟨last, hposition, hleads hlast, hfinish⟩

theorem State.LeadsTo.isViable {before : List Token} {next : State g} (h : (State.start g).LeadsTo before next) :
    g.IsViable (before.map Token.kind) := by
  obtain ⟨more, v, hread⟩ := next.exists_read_eq_ok
  refine ⟨more.map Token.kind, ?_⟩
  rw [← List.map_append]
  exact derives_map_kind_iff.2 ⟨v, (h more).trans hread⟩

/-- **No continuation makes a token right that is refused.** -/
theorem State.LeadsTo.not_isViable {before : List Token} {token : Token} {next : State g}
    (h : (State.start g).LeadsTo before next) (hstep : next.step token = .error problem) :
    ¬ g.IsViable ((before ++ [token]).map Token.kind) := by
  rintro ⟨kinds, hderives⟩
  have hkinds : (before ++ token :: kinds.map someToken).map Token.kind =
      (before ++ [token]).map Token.kind ++ kinds := by
    simp [someToken, Function.comp_def]
  rw [← hkinds] at hderives
  obtain ⟨v, hread⟩ := derives_map_kind_iff.1 hderives
  rw [readTokens, h, State.read_cons_of_error hstep] at hread
  cases hread

/-! ### Texts -/

/-- The error for a text, if there is one, says where the text goes wrong. -/
structure Locates (g : Goal) (text : String) (outcome : Except ParseError g.Result) : Prop where
  /-- At the token with the position the text ceases to be the beginning of anything in the grammar. -/
  at_token : ∀ tokens e p, scan text.toList = .ok tokens → outcome = .error e → e.position = some p →
    ∃ before token after, tokens = before ++ token :: after ∧ token.position = p ∧
      g.IsViable (before.map Token.kind) ∧ ¬ g.IsViable ((before ++ [token]).map Token.kind)
  /-- Without a position, the tokens are not in the grammar, but more tokens would bring them there. -/
  at_end : ∀ tokens e, scan text.toList = .ok tokens → outcome = .error e → e.position = none →
    ¬ g.Derives (tokens.map Token.kind) ∧ ∃ more, more ≠ [] ∧ g.Derives (tokens.map Token.kind ++ more)
  /-- A text without tokens is refused where behind the lexemes before no lexeme stands. -/
  at_stray : ∀ p, scan text.toList = .error p →
    StraysAt text.toList p ∧ ∃ e, outcome = .error e ∧ e.position = some p

theorem readTokens_of_parse_eq_error {text : List Char} {e : ParseError} (hscan : scan text = .ok tokens)
    (h : parse g text = .error e) : readTokens g tokens = .error (e.problem, e.position) := by
  rw [parse_of_scan hscan, parseTokens] at h
  cases hread : readTokens g tokens with
  | ok v =>
    rw [hread] at h
    cases h
  | error refusal =>
    rw [hread] at h
    cases h
    rfl

theorem parse_locates (g : Goal) (text : String) : Locates g text (parse g text.toList) where
  at_token tokens e p hscan herror hp := by
    have hread := readTokens_of_parse_eq_error hscan herror
    rcases State.read_eq_error hread with ⟨before, token, after, next, rfl, hposition, hleads, hstep⟩ | ⟨_, hnone, -, -⟩
    · rw [hp, Option.some.injEq] at hposition
      exact ⟨before, token, after, rfl, hposition.symm, hleads.isViable, hleads.not_isViable hstep⟩
    · rw [hp] at hnone
      cases hnone
  at_end tokens e hscan herror hp := by
    have hread := readTokens_of_parse_eq_error hscan herror
    rcases State.read_eq_error hread with ⟨_, _, _, _, -, hposition, -, -⟩ | ⟨next, -, hleads, hfinish⟩
    · rw [hp] at hposition
      cases hposition
    · refine ⟨fun hderives => ?_, ?_⟩
      · obtain ⟨v, hv⟩ := derives_map_kind_iff.1 hderives
        rw [hread] at hv
        cases hv
      · obtain ⟨more, v, hmore⟩ := next.exists_read_eq_ok
        refine ⟨more.map Token.kind, ?_, ?_⟩
        · intro hnil
          rw [List.map_eq_nil_iff.1 hnil, State.read_nil hfinish] at hmore
          cases hmore
        · rw [← List.map_append]
          exact derives_map_kind_iff.2 ⟨v, (hleads more).trans hmore⟩
  at_stray p hscan := ⟨scan_eq_error_iff.1 hscan, _, parse_of_scan_error hscan, rfl⟩

/-- **An error points at the first token that nothing can make right.**  Up to this token the text is the
beginning of something in the grammar, and with it no longer. -/
theorem parse_error_located (text : String) :
    Locates .term text (parseTerm text) ∧ Locates .fact text (parseFact text) ∧
      Locates .rule text (parseRule text) :=
  ⟨parse_locates .term text, parse_locates .fact text, parse_locates .rule text⟩

/-- A comma is missing in one text, a parenthesis in another one, and the third has a character that begins
nothing. -/
theorem parse_error_located_unfinished :
    (∃ tokens e, scan "f(?x ?y)".toList = .ok tokens ∧ parseTerm "f(?x ?y)" = .error e ∧ e.position = some 5 ∧
      ∃ before token after, tokens = before ++ token :: after ∧ token.position = 5 ∧
        Goal.term.IsViable (before.map Token.kind) ∧
        ¬ Goal.term.IsViable ((before ++ [token]).map Token.kind)) ∧
    (∃ e, parseFact "f(g(" = .error e ∧ e.position = none ∧
      ∃ more, more ≠ [] ∧ Goal.fact.Derives ([.identifier, .opening, .identifier, .opening] ++ more)) ∧
    ∃ e, parseRule "f => @" = .error e ∧ e.position = some 5 ∧ StraysAt "f => @".toList 5 := by
  obtain ⟨hterm, -, -⟩ := parse_error_located "f(?x ?y)"
  obtain ⟨-, hfact, -⟩ := parse_error_located "f(g("
  obtain ⟨-, -, hrule⟩ := parse_error_located "f => @"
  have hapart : scan "f(?x ?y)".toList = .ok
      [⟨.identifier, ['f'], 0⟩, ⟨.opening, ['('], 1⟩, ⟨.variableName, ['?', 'x'], 2⟩,
        ⟨.variableName, ['?', 'y'], 5⟩, ⟨.closing, [')'], 7⟩] := by decide
  have hopen : scan "f(g(".toList = .ok
      [⟨.identifier, ['f'], 0⟩, ⟨.opening, ['('], 1⟩, ⟨.identifier, ['g'], 2⟩, ⟨.opening, ['('], 3⟩] := by decide
  refine ⟨⟨_, _, hapart, rfl, rfl, ?_⟩, ⟨_, rfl, rfl, ?_⟩, ?_⟩
  · exact hterm.at_token _ _ 5 hapart rfl rfl
  · exact (hfact.at_end _ _ hopen rfl rfl).2
  · obtain ⟨hstrays, e, he, hposition⟩ := hrule.at_stray 5 (by decide)
    exact ⟨e, he, hposition, hstrays⟩

end ForwardChaining.Notation
