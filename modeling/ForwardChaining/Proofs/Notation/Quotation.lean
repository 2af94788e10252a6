import ForwardChaining.Proofs.Notation.Display
import ForwardChaining.Proofs.Notation.Lexemes

/-!
# Quotations

Every text can be written as a constant: `quotationOf` puts it between quotes, and a backslash before each
character that would not stand for itself there.  The scanner and the reader pair the backslashes of a quotation in
the same way, which `Quotes` states once for both of them.

* `Denotes`: the texts of terms, with quotations, blanks and comments wherever they may stand.
* `Denotes.spells`: such a text is scanned as the tokens of a derivation of its term.
* `quotation_exact`: what is written as a quotation is read back, and every quotation that is found stands for the
  text that its inside denotes.
-/

namespace ForwardChaining.Notation

variable {quote : Char} {body s cs : List Char} {t : Term}

/-! ### Writing a text as a quotation -/

/-- The text with a backslash before every quote and every backslash. -/
def escape (quote : Char) (s : List Char) : List Char :=
  s.flatMap fun c => if c = quote ∨ c = '\\' then ['\\', c] else [c]

def quotationOf (quote : Char) (s : String) : List Char := quote :: (escape quote s.toList ++ [quote])

theorem quotes_escape (hquote : IsQuote quote) (s : List Char) : Quotes quote (escape quote s) s := by
  induction s with
  | nil => exact .nil
  | cons c s ih =>
    rw [escape, List.flatMap_cons, ← escape]
    split
    next hc =>
      refine .pair ?_ ih
      rcases hc with rfl | rfl
      · exact hquote.ne_lineFeed
      · decide
    next hc =>
      rw [not_or] at hc
      exact .plain hc.1 hc.2 ih

theorem spells_quotation (hquote : IsQuote quote) (h : Quotes quote body s) :
    (Phrase.one .term).Spells (quote :: (body ++ [quote])) (.const (.text (String.ofList s))) := by
  intro position
  have hlexeme (rest : List Char) (_ : Boundary rest) :
      lexeme? (quote :: (body ++ [quote]) ++ rest) =
        some (some .quotation, (quote :: (body ++ [quote])).length) := by
    rw [lexeme?_quotation hquote h]
    simp
  obtain ⟨token, htext, hscans⟩ := Scans.token .quotation _ hlexeme
  refine ⟨.quotation token, ?_, hscans⟩
  rw [Derivation.value, htext, h.unquote_eq]

/-! ### The texts of terms -/

/-- The text is one of the term. -/
inductive Denotes : List Char → Term → Prop where
  | variableName {v : String} (hv : IsVariableName v) : Denotes ('?' :: v.toList) (.var v)
  | constant {s : String} (hs : IsIdentifier s) : Denotes s.toList (.const (.text s))
  | quotation {quote : Char} (hquote : IsQuote quote) (s : String) :
      Denotes (quotationOf quote s) (.const (.text s))
  | nullary {f : String} {gap inside : List Char} (hf : IsIdentifier f) (hgap : IsGap gap) (hinside : IsGap inside) :
      Denotes (f.toList ++ (gap ++ '(' :: (inside ++ [')']))) (.app f [])
  | app {f : String} {gap : List Char} (first : List Char × Term) (others : List (List Char × Term))
      (hf : IsIdentifier f) (hgap : IsGap gap) (hargs : ∀ a ∈ first :: others, Denotes a.1 a.2) :
      Denotes (f.toList ++ (gap ++ '(' :: ([','].intercalate ((first :: others).map Prod.fst) ++ [')'])))
        (.app f ((first :: others).map Prod.snd))
  | spaced {gap gap' cs : List Char} {t : Term} (hgap : IsGap gap) (hgap' : IsGap gap') (h : Denotes cs t) :
      Denotes (gap ++ (cs ++ gap')) t

theorem Phrase.Spells.compound {f : String} {args : List Term} (h : Phrase.application.Spells cs ⟨f, args⟩) :
    (Phrase.one .term).Spells cs (.app f args) := by
  intro position
  obtain ⟨a, ha, hscans⟩ := h position
  exact ⟨.compound a, by rw [Derivation.value, ha]; rfl, hscans⟩

theorem Denotes.spells (h : Denotes cs t) : (Phrase.one .term).Spells cs t := by
  induction h with
  | @variableName v hv => simpa using spells_variable hv
  | constant hs => exact spells_constant hs
  | @quotation quote hquote s =>
    simpa [quotationOf] using spells_quotation hquote (quotes_escape hquote s.toList)
  | @nullary f gap inside hf hgap hinside =>
    refine (spells_parenthesized hf hgap fun position => ⟨.empty, rfl, ?_⟩).compound
    simpa [Derivation.tokens] using Scans.nil.spaced hinside .nil
  | app first others hf hgap _ ih =>
    exact (spells_parenthesized hf hgap (spells_listed (g := .term) first others ih)).compound
  | spaced hgap hgap' _ ih => exact ih.spaced hgap hgap'

theorem Denotes.parseTerm_eq (h : Denotes cs t) : parseTerm (String.ofList cs) = .ok t := by
  rw [parseTerm, String.toList_ofList]
  exact h.spells.parse

/-! ### Quotations that are found -/

/-- **A token for a quotation stands for what its inside denotes.** -/
theorem exists_quotes_of_scan {tokens : List Token} {token : Token} (hscan : scan cs = .ok tokens)
    (htoken : token ∈ tokens) (hkind : token.kind = .quotation) :
    ∃ quote body s, IsQuote quote ∧ token.text = quote :: (body ++ [quote]) ∧ Quotes quote body s := by
  have hlexeme := isLexeme_of_scan hscan htoken
  rw [hkind] at hlexeme
  generalize token.text = piece at hlexeme ⊢
  cases hlexeme with
  | quotation hquote h => exact ⟨_, _, _, hquote, rfl, h⟩

/-- **Every text can be written as a constant, and every quotation stands for one text.**  What is written as a
quotation is read back, among blanks and as an argument wherever it stands.  Conversely a quotation that is found
in a text consists of characters that stand for themselves and of backslashes, each with the character behind it,
for which it stands. -/
theorem quotation_exact :
    (∀ quote s before behind, IsQuote quote → (∀ c ∈ before ++ behind, Text.isBlank c = true) →
      parseTerm (String.ofList (before ++ (quotationOf quote s ++ behind))) = .ok (.const (.text s))) ∧
    (∀ cs t, Denotes cs t → parseTerm (String.ofList cs) = .ok t) ∧
    ∀ cs tokens token, scan cs = .ok tokens → token ∈ tokens → token.kind = .quotation →
      ∃ quote body s, IsQuote quote ∧ token.text = quote :: (body ++ [quote]) ∧ Quotes quote body s ∧
        token.term? = some (.const (.text (String.ofList s))) ∧
        parseTerm (String.ofList token.text) = .ok (.const (.text (String.ofList s))) := by
  refine ⟨?_, fun cs t h => h.parseTerm_eq, ?_⟩
  · intro quote s before behind hquote hblank
    have hbefore : IsGap before := isGap_of_isBlank fun c hc => hblank c (List.mem_append_left _ hc)
    have hbehind : IsGap behind := isGap_of_isBlank fun c hc => hblank c (List.mem_append_right _ hc)
    exact (Denotes.spaced hbefore hbehind (.quotation hquote s)).parseTerm_eq
  · intro cs tokens token hscan htoken hkind
    obtain ⟨quote, body, s, hquote, htext, h⟩ := exists_quotes_of_scan hscan htoken hkind
    refine ⟨quote, body, s, hquote, htext, h, ?_, ?_⟩
    · simp [Token.term?, hkind, htext, h.unquote_eq]
    · rw [htext, parseTerm, String.toList_ofList]
      exact (spells_quotation hquote h).parse

/-- A text with a backslash, a quote, a line feed and a comment sign in it: among blanks, and as an argument of an
argument behind a comment.  In a third text a backslash takes a quote along. -/
theorem quotation_exact_awkward :
    parseTerm " \"\\\\'\n#\"\t" = .ok (.const (.text "\\'\n#")) ∧
    parseTerm "f(?x,# )\n g('\\\\\\'\n#'))" = .ok (.app "f" [.var "x", .app "g" [.const (.text "\\'\n#")]]) ∧
    ∃ tokens token, scan "p(\"a\\\"\")".toList = .ok tokens ∧ token ∈ tokens ∧
      ∃ quote body s, IsQuote quote ∧ token.text = quote :: (body ++ [quote]) ∧ Quotes quote body s ∧
        token.term? = some (.const (.text (String.ofList s))) := by
  obtain ⟨halone, hdenotes, hfound⟩ := quotation_exact
  refine ⟨?_, ?_, ?_⟩
  · have hblank : ∀ c ∈ [' '] ++ ['\t'], Text.isBlank c = true :=
      List.forall_mem_cons.2 ⟨rfl, List.forall_mem_singleton.2 rfl⟩
    exact halone '"' "\\'\n#" [' '] ['\t'] (by decide) hblank
  · have hx : Denotes "?x".toList (.var "x") := Denotes.variableName (v := "x") ⟨'x', [], rfl, rfl, by simp⟩
    have hquotation : Denotes "'\\\\\\'\n#'".toList (.const (.text "\\'\n#")) :=
      @Denotes.quotation '\'' (by decide) "\\'\n#"
    have hg := Denotes.app ⟨_, _⟩ [] (by decide : IsIdentifier "g") .nil (List.forall_mem_singleton.2 hquotation)
    have hcomment : IsGap "# )\n ".toList := @IsGap.comment [' ', ')'] [' '] (by simp) (.blank rfl .nil)
    have hsecond := hg.spaced hcomment .nil
    have hf := Denotes.app ⟨_, _⟩ [⟨_, _⟩] (by decide : IsIdentifier "f") .nil
      (List.forall_mem_cons.2 ⟨hx, List.forall_mem_singleton.2 hsecond⟩)
    exact hdenotes _ _ hf
  · have hscan : scan "p(\"a\\\"\")".toList = .ok
        [⟨.identifier, ['p'], 0⟩, ⟨.opening, ['('], 1⟩, ⟨.quotation, ['"', 'a', '\\', '"', '"'], 2⟩,
          ⟨.closing, [')'], 7⟩] := by decide
    have htoken : (⟨.quotation, ['"', 'a', '\\', '"', '"'], 2⟩ : Token) ∈
        [⟨.identifier, ['p'], 0⟩, ⟨.opening, ['('], 1⟩, ⟨.quotation, ['"', 'a', '\\', '"', '"'], 2⟩,
          ⟨.closing, [')'], 7⟩] := by decide
    obtain ⟨quote, body, s, hquote, htext, hquotes, hterm, -⟩ := hfound _ _ _ hscan htoken rfl
    exact ⟨_, _, hscan, htoken, quote, body, s, hquote, htext, hquotes, hterm⟩

end ForwardChaining.Notation
