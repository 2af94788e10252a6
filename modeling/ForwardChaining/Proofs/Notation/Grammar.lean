import ForwardChaining.Notation.Reading

/-!
# The grammar

The derivations of the grammar as trees, whose leaves are tokens.  The index of a tree is the phrase that it
derives, so that a tree that breaks a rule of the grammar cannot be built.  `Derivation.tokens` is the sequence
of tokens that the tree derives and `Derivation.value` what they stand for.

A sequence of tokens has at most one derivation, `Derivation.tokens_injective`.  This comes from a statement
on trees with something behind them, `Derivation.unique`: two trees are the same if their tokens are, up to
tokens that cannot belong to either.
-/

namespace ForwardChaining.Notation

/-- A token of the given kind. -/
abbrev Lexeme (kind : TokenKind) : Type := { token : Token // token.kind = kind }

/-- What a derivation derives. -/
inductive Phrase where
  | one (g : Goal)
  /-- An identifier with arguments in parentheses. -/
  | application
  /-- Any number of them, each behind a comma. -/
  | more (g : Goal)
  /-- Any number of them with commas between them. -/
  | listed (g : Goal)
  /-- One, and a dot that may be missing. -/
  | ended (g : Goal)

/-- The type of what a phrase stands for. -/
abbrev Phrase.Value : Phrase → Type
  | one g => g.Result
  | application => Atom
  | more g => List g.Result
  | listed g => List g.Result
  | ended g => g.Result

/-- The derivations of a phrase. -/
inductive Derivation : Phrase → Type where
  | variableName (v : Lexeme .variableName) : Derivation (.one .term)
  | quotation (q : Lexeme .quotation) : Derivation (.one .term)
  | constant (c : Lexeme .identifier) : Derivation (.one .term)
  | compound (a : Derivation .application) : Derivation (.one .term)
  | application (f : Lexeme .identifier) (opening : Lexeme .opening) (args : Derivation (.listed .term))
      (closing : Lexeme .closing) : Derivation .application
  | bare (f : Lexeme .identifier) : Derivation (.one .fact)
  | applied (a : Derivation .application) : Derivation (.one .fact)
  | rule (antecedents : Derivation (.listed .fact)) (arrow : Lexeme .arrow)
      (consequent : Derivation (.one .fact)) : Derivation (.one .rule)
  | noMore {g : Goal} : Derivation (.more g)
  | more {g : Goal} (comma : Lexeme .comma) (next : Derivation (.one g)) (others : Derivation (.more g)) :
      Derivation (.more g)
  | empty {g : Goal} : Derivation (.listed g)
  | list {g : Goal} (first : Derivation (.one g)) (others : Derivation (.more g)) : Derivation (.listed g)
  | undotted {g : Goal} (d : Derivation (.one g)) : Derivation (.ended g)
  | dotted {g : Goal} (d : Derivation (.one g)) (dot : Lexeme .dot) : Derivation (.ended g)

namespace Derivation

/-- The tokens that are derived. -/
def tokens : {p : Phrase} → Derivation p → List Token
  | _, variableName v => [v.1]
  | _, quotation q => [q.1]
  | _, constant c => [c.1]
  | _, compound a => a.tokens
  | _, application f opening args closing => f.1 :: opening.1 :: (args.tokens ++ [closing.1])
  | _, bare f => [f.1]
  | _, applied a => a.tokens
  | _, rule antecedents arrow consequent => antecedents.tokens ++ arrow.1 :: consequent.tokens
  | _, noMore => []
  | _, more comma next others => comma.1 :: (next.tokens ++ others.tokens)
  | _, empty => []
  | _, list first others => first.tokens ++ others.tokens
  | _, undotted d => d.tokens
  | _, dotted d dot => d.tokens ++ [dot.1]

/-- What the derived tokens stand for. -/
def value : {p : Phrase} → Derivation p → p.Value
  | _, variableName v => Term.var (String.ofList (v.1.text.drop 1))
  | _, quotation q => Term.const (.text (String.ofList (unquote q.1.text)))
  | _, constant c => Term.const (.text c.1.name)
  | _, compound a => Atom.toTerm a.value
  | _, application f _ args _ => Atom.mk f.1.name args.value
  | _, bare f => Atom.mk f.1.name []
  | _, applied a => a.value
  | _, rule antecedents _ consequent => { antecedents := antecedents.value, consequent := consequent.value }
  | _, noMore => []
  | _, more _ next others => next.value :: others.value
  | _, empty => []
  | _, list first others => first.value :: others.value
  | _, undotted d => d.value
  | _, dotted d _ => d.value

end Derivation

/-! ### Unambiguity -/

/-- The kind of the token behind a list. -/
def Goal.closer : Goal → TokenKind
  | fact => .arrow
  | _ => .closing

/-- Nothing at the front of the tokens can belong to a phrase that stands before them. -/
def Phrase.EndsBefore : Phrase → List Token → Prop
  | one _, rest => ∀ token ∈ rest.head?, token.kind ≠ .opening
  | application, _ => True
  | more _, rest => ∀ token ∈ rest.head?, token.kind ≠ .opening ∧ token.kind ≠ .comma
  | listed g, rest => ∃ token ∈ rest.head?, token.kind = g.closer
  | ended _, rest => rest = []

theorem Lexeme.kind_eq {k k' : TokenKind} {a : Lexeme k} {b : Lexeme k'} (h : a.1 = b.1) : k = k' := by
  rw [← a.2, ← b.2, h]

section

variable {g : Goal} {rest rest' : List Token}

theorem Phrase.endsBefore_nil : (one g).EndsBefore [] := by simp [EndsBefore]

theorem Phrase.endsBefore_cons {token : Token} (h : token.kind ≠ .opening) :
    (one g).EndsBefore (token :: rest) := by
  simpa [EndsBefore] using h

theorem Phrase.endsBefore_dot (dot : Lexeme .dot) : (one g).EndsBefore (dot.1 :: rest) :=
  endsBefore_cons (by simp [dot.2])

theorem Phrase.EndsBefore.more_of_listed (h : (listed g).EndsBefore rest) : (more g).EndsBefore rest := by
  obtain ⟨token, hmem, hkind⟩ := h
  intro other hother
  rw [Option.mem_unique hother hmem, hkind]
  cases g <;> simp [Goal.closer]

namespace Derivation

theorem endsBefore_tokens_append (d : Derivation (.more g)) (h : (Phrase.more g).EndsBefore rest) :
    (Phrase.one g).EndsBefore (d.tokens ++ rest) := by
  cases d with
  | noMore => exact fun token hmem => (h token hmem).1
  | more comma next others => exact Phrase.endsBefore_cons (by simp [comma.2])

theorem cons_ne_application (a : Derivation .application) {token : Token}
    (h : (Phrase.one g).EndsBefore rest) : token :: rest ≠ a.tokens ++ rest' := by
  intro heq
  cases a with
  | application f opening args closing =>
    obtain ⟨rfl, rfl⟩ := List.cons.inj heq
    exact h _ rfl opening.2

theorem exists_tokens_eq_name_of_application (a : Derivation .application) :
    ∃ (f : Lexeme .identifier) (tail : List Token), a.tokens = f.1 :: tail := by
  cases a with
  | application f opening args closing => exact ⟨f, _, rfl⟩

theorem exists_tokens_eq_name_of_fact (d : Derivation (.one .fact)) :
    ∃ (f : Lexeme .identifier) (tail : List Token), d.tokens = f.1 :: tail := by
  cases d with
  | bare f => exact ⟨f, [], rfl⟩
  | applied a => exact a.exists_tokens_eq_name_of_application

theorem not_endsBefore_tokens (d : Derivation (.one g)) :
    ¬ (Phrase.listed g).EndsBefore (d.tokens ++ rest) := by
  suffices h : ∃ token tail, d.tokens = token :: tail ∧ token.kind ≠ g.closer by
    obtain ⟨token, tail, htokens, hkind⟩ := h
    simp [htokens, Phrase.EndsBefore, hkind]
  cases d with
  | variableName v => exact ⟨v.1, [], rfl, by simp [v.2, Goal.closer]⟩
  | quotation q => exact ⟨q.1, [], rfl, by simp [q.2, Goal.closer]⟩
  | constant c => exact ⟨c.1, [], rfl, by simp [c.2, Goal.closer]⟩
  | compound a =>
    obtain ⟨f, tail, hf⟩ := a.exists_tokens_eq_name_of_application
    exact ⟨f.1, tail, hf, by simp [f.2, Goal.closer]⟩
  | bare f => exact ⟨f.1, [], rfl, by simp [f.2, Goal.closer]⟩
  | applied a =>
    obtain ⟨f, tail, hf⟩ := a.exists_tokens_eq_name_of_application
    exact ⟨f.1, tail, hf, by simp [f.2, Goal.closer]⟩
  | rule antecedents arrow consequent =>
    cases antecedents with
    | empty => exact ⟨arrow.1, _, rfl, by simp [arrow.2, Goal.closer]⟩
    | list first others =>
      obtain ⟨f, tail, hf⟩ := first.exists_tokens_eq_name_of_fact
      exact ⟨f.1, tail ++ others.tokens ++ arrow.1 :: consequent.tokens, by simp [tokens, hf],
        by simp [f.2, Goal.closer]⟩

/-- **Two derivations of one phrase are the same if what they derive is**, up to tokens behind it that cannot
belong to it. -/
theorem unique {p : Phrase} (d e : Derivation p) (hd : p.EndsBefore rest) (he : p.EndsBefore rest')
    (h : d.tokens ++ rest = e.tokens ++ rest') : d = e ∧ rest = rest' := by
  induction d generalizing rest rest' with
  | variableName v =>
    cases e with
    | variableName w =>
      obtain ⟨hv, hrest⟩ := List.cons.inj h
      exact ⟨congrArg _ (Subtype.ext hv), hrest⟩
    | quotation q => cases Lexeme.kind_eq (List.cons.inj h).1
    | constant c => cases Lexeme.kind_eq (List.cons.inj h).1
    | compound a => exact absurd h (a.cons_ne_application hd)
  | quotation q =>
    cases e with
    | quotation r =>
      obtain ⟨hq, hrest⟩ := List.cons.inj h
      exact ⟨congrArg _ (Subtype.ext hq), hrest⟩
    | variableName v => cases Lexeme.kind_eq (List.cons.inj h).1
    | constant c => cases Lexeme.kind_eq (List.cons.inj h).1
    | compound a => exact absurd h (a.cons_ne_application hd)
  | constant c =>
    cases e with
    | constant c' =>
      obtain ⟨hc, hrest⟩ := List.cons.inj h
      exact ⟨congrArg _ (Subtype.ext hc), hrest⟩
    | variableName v => cases Lexeme.kind_eq (List.cons.inj h).1
    | quotation q => cases Lexeme.kind_eq (List.cons.inj h).1
    | compound a => exact absurd h (a.cons_ne_application hd)
  | compound a ih =>
    cases e with
    | compound a' =>
      obtain ⟨ha, hrest⟩ := ih a' trivial trivial h
      exact ⟨congrArg _ ha, hrest⟩
    | variableName v => exact absurd h.symm (a.cons_ne_application he)
    | quotation q => exact absurd h.symm (a.cons_ne_application he)
    | constant c => exact absurd h.symm (a.cons_ne_application he)
  | application f opening args closing ih =>
    cases e with
    | application f' opening' args' closing' =>
      simp only [tokens, List.cons_append, List.append_assoc, List.nil_append, List.cons.injEq] at h
      obtain ⟨hf, hopening, h⟩ := h
      obtain ⟨hargs, h⟩ := ih args' ⟨_, rfl, closing.2⟩ ⟨_, rfl, closing'.2⟩ h
      obtain ⟨hclosing, hrest⟩ := List.cons.inj h
      exact ⟨by rw [Subtype.ext hf, Subtype.ext hopening, hargs, Subtype.ext hclosing], hrest⟩
  | bare f =>
    cases e with
    | bare f' =>
      obtain ⟨hf, hrest⟩ := List.cons.inj h
      exact ⟨congrArg _ (Subtype.ext hf), hrest⟩
    | applied a => exact absurd h (a.cons_ne_application hd)
  | applied a ih =>
    cases e with
    | applied a' =>
      obtain ⟨ha, hrest⟩ := ih a' trivial trivial h
      exact ⟨congrArg _ ha, hrest⟩
    | bare f' => exact absurd h.symm (a.cons_ne_application he)
  | rule antecedents arrow consequent iha ihc =>
    cases e with
    | rule antecedents' arrow' consequent' =>
      simp only [tokens, List.append_assoc, List.cons_append] at h
      obtain ⟨has, h⟩ := iha antecedents' ⟨_, rfl, arrow.2⟩ ⟨_, rfl, arrow'.2⟩ h
      obtain ⟨harrow, h⟩ := List.cons.inj h
      obtain ⟨hc, hrest⟩ := ihc consequent' hd he h
      exact ⟨by rw [has, Subtype.ext harrow, hc], hrest⟩
  | noMore =>
    cases e with
    | noMore => exact ⟨rfl, h⟩
    | more comma next others =>
      cases h
      exact absurd comma.2 (hd _ rfl).2
  | more comma next others ihn iho =>
    cases e with
    | noMore =>
      cases h
      exact absurd comma.2 (he _ rfl).2
    | more comma' next' others' =>
      simp only [tokens, List.append_assoc, List.cons_append, List.cons.injEq] at h
      obtain ⟨hcomma, h⟩ := h
      obtain ⟨hn, h⟩ := ihn next' (others.endsBefore_tokens_append hd)
        (others'.endsBefore_tokens_append he) h
      obtain ⟨ho, hrest⟩ := iho others' hd he h
      exact ⟨by rw [Subtype.ext hcomma, hn, ho], hrest⟩
  | empty =>
    cases e with
    | empty => exact ⟨rfl, h⟩
    | list first others =>
      simp only [tokens, List.append_assoc, List.nil_append] at h
      exact absurd (h ▸ hd) first.not_endsBefore_tokens
  | list first others ihf iho =>
    cases e with
    | empty =>
      simp only [tokens, List.append_assoc, List.nil_append] at h
      exact absurd (h ▸ he) first.not_endsBefore_tokens
    | list first' others' =>
      simp only [tokens, List.append_assoc] at h
      obtain ⟨hf, h⟩ := ihf first' (others.endsBefore_tokens_append hd.more_of_listed)
        (others'.endsBefore_tokens_append he.more_of_listed) h
      obtain ⟨ho, hrest⟩ := iho others' hd.more_of_listed he.more_of_listed h
      exact ⟨by rw [hf, ho], hrest⟩
  | undotted d ih =>
    subst hd he
    cases e with
    | undotted e =>
      obtain ⟨hde, -⟩ := ih e Phrase.endsBefore_nil Phrase.endsBefore_nil h
      exact ⟨by rw [hde], rfl⟩
    | dotted e dot =>
      rw [tokens, tokens, List.append_assoc] at h
      obtain ⟨-, h⟩ := ih e Phrase.endsBefore_nil (Phrase.endsBefore_dot dot) h
      exact absurd h (by simp)
  | dotted d dot ih =>
    subst hd he
    cases e with
    | undotted e =>
      rw [tokens, tokens, List.append_assoc] at h
      obtain ⟨-, h⟩ := ih e (Phrase.endsBefore_dot dot) Phrase.endsBefore_nil h
      exact absurd h (by simp)
    | dotted e dot' =>
      rw [tokens, tokens, List.append_assoc, List.append_assoc] at h
      obtain ⟨hde, h⟩ := ih e (Phrase.endsBefore_dot dot) (Phrase.endsBefore_dot dot') h
      obtain ⟨hdot, -⟩ := List.cons.inj h
      exact ⟨by rw [hde, Subtype.ext hdot], rfl⟩

/-- **The grammar is unambiguous**: a sequence of tokens has at most one derivation of a phrase that ends with
it. -/
theorem tokens_injective : Function.Injective (tokens (p := .ended g)) := by
  intro d e h
  exact (d.unique e rfl rfl (by rw [h])).1

end Derivation

end

end ForwardChaining.Notation
