import ForwardChaining.Proofs.Notation.Acceptance
import ForwardChaining.Proofs.Notation.Lines
import ForwardChaining.Proofs.Notation.Program

/-!
# A program is its lines

A line is read as a fact or as a rule, and which of the two is seen from its tokens: a rule has an arrow and a fact
has none.  So no line is both, and reading a program comes to the same as reading its lines one by one as facts and
as rules, `parseProgram_readByLines`.

A line feed between two texts keeps their lines apart, whatever the first one ends with,
`Text.lines_append_lineFeed_append`.  Hence two programs are read one behind the other as each by itself.
-/

namespace ForwardChaining

/-! ### The lines of two texts -/

namespace Text

variable {c : Char} {a rest : List Char}

theorem lines_ne_nil (h : a ≠ []) : lines a ≠ [] := by
  cases a using lines.fun_cases <;> simp_all [lines]

theorem lines_cons_of_isLineEnd (hc : isLineEnd c = true) :
    lines (c :: rest) = if c = '\r' ∧ rest.head? = some '\n' then lines rest else [] :: lines rest := by
  split
  next h =>
    obtain ⟨rfl, hhead⟩ := h
    obtain ⟨more, rfl⟩ := List.head?_eq_some_iff.1 hhead
    rfl
  next h =>
    rw [lines, if_pos hc]
    rintro more rfl rfl
    exact h ⟨rfl, rfl⟩

theorem lines_append_lineFeed_append (a b : List Char) :
    lines (a ++ '\n' :: b) = lines (a ++ ['\n']) ++ lines b := by
  induction a with
  | nil => rfl
  | cons c rest ih =>
    rw [List.cons_append, List.cons_append]
    by_cases hc : isLineEnd c = true
    · have hhead : (rest ++ '\n' :: b).head? = (rest ++ ['\n']).head? := by simp
      rw [lines_cons_of_isLineEnd hc, lines_cons_of_isLineEnd hc, hhead, ih]
      split <;> rfl
    · rw [Bool.not_eq_true] at hc
      obtain ⟨line, more, hlines⟩ := List.exists_cons_of_ne_nil (lines_ne_nil (a := rest ++ ['\n']) (by simp))
      rw [lines_cons_of_eq_cons hc hlines, List.cons_append, lines_cons_of_eq_cons hc]
      rw [ih, hlines, List.cons_append]

theorem lines_append_lineFeed (a : List Char) :
    lines (a ++ ['\n']) = lines a ∨ lines (a ++ ['\n']) = lines a ++ [[]] := by
  induction a with
  | nil => exact .inr rfl
  | cons c rest ih =>
    rw [List.cons_append]
    by_cases hc : isLineEnd c = true
    · rw [lines_cons_of_isLineEnd hc, lines_cons_of_isLineEnd hc]
      cases rest with
      | nil =>
        by_cases hcr : c = '\r'
        · exact .inl (by simp [hcr]; rfl)
        · exact .inr (by simp [hcr]; rfl)
      | cons c' rest =>
        rw [List.cons_append, List.head?_cons, List.head?_cons]
        split
        · exact ih
        · exact ih.imp (congrArg ([] :: ·)) (congrArg ([] :: ·))
    · rw [Bool.not_eq_true] at hc
      cases rest with
      | nil => exact .inl ((lines_cons_of_eq_cons hc rfl).trans (lines_cons_of_eq_nil hc rfl).symm)
      | cons c' rest =>
        obtain ⟨line, more, hlines⟩ := List.exists_cons_of_ne_nil (lines_ne_nil (List.cons_ne_nil c' rest))
        rw [lines_cons_of_eq_cons hc hlines]
        rw [hlines] at ih
        exact ih.imp (lines_cons_of_eq_cons hc) (lines_cons_of_eq_cons hc)

end Text

namespace Notation

variable {line : List Char} {tokens : List Token} {a : Atom} {r : Rule} {e : ParseError}

/-! ### One line -/

/-- The line holds blanks and comments at most. -/
def IsVacant (line : List Char) : Prop := scan line = .ok []

/-- One of the tokens of the line is an arrow. -/
def HasArrow (line : List Char) : Prop := ∃ tokens, scan line = .ok tokens ∧ ∃ token ∈ tokens, token.kind = .arrow

/-- There is something in the line that is neither a fact nor a rule. -/
structure IsRejected (line : List Char) : Prop where
  not_isVacant : ¬ IsVacant line
  not_fact : ∀ a, parseFact (String.ofList line) ≠ .ok a
  not_rule : ∀ r, parseRule (String.ofList line) ≠ .ok r

theorem parseFact_ofList (line : List Char) : parseFact (String.ofList line) = parse .fact line := by
  rw [parseFact, String.toList_ofList]

theorem parseRule_ofList (line : List Char) : parseRule (String.ofList line) = parse .rule line := by
  rw [parseRule, String.toList_ofList]

theorem exists_derivation_of_parse {g : Goal} {v : g.Result} (h : parse g line = .ok v) :
    ∃ d : Derivation (.ended g), scan line = .ok d.tokens ∧ d.value = v := by
  cases hscan : scan line with
  | error p =>
    rw [parse_of_scan_error hscan] at h
    cases h
  | ok tokens =>
    rw [parse_of_scan hscan] at h
    obtain ⟨d, rfl, hd⟩ := exists_derivation_of_parseTokens h
    exact ⟨d, rfl, hd⟩

theorem not_hasArrow_of_parse (h : parse .fact line = .ok a) : ¬ HasArrow line := by
  rintro ⟨tokens, htokens, token, htoken, hkind⟩
  obtain ⟨d, hscan, -⟩ := exists_derivation_of_parse h
  rw [htokens, Except.ok.injEq] at hscan
  subst hscan
  exact d.kind_ne_arrow (by decide) token htoken hkind

theorem hasArrow_of_parse (h : parse .rule line = .ok r) : HasArrow line := by
  obtain ⟨d, hscan, -⟩ := exists_derivation_of_parse h
  have harrow (d : Derivation (.one .rule)) : ∃ token ∈ d.tokens, token.kind = .arrow := by
    cases d with
    | rule antecedents arrow consequent => exact ⟨arrow.1, by simp [Derivation.tokens], arrow.2⟩
  refine ⟨d.tokens, hscan, ?_⟩
  cases d with
  | undotted d => exact harrow d
  | dotted d dot =>
    obtain ⟨token, htoken, hkind⟩ := harrow d
    exact ⟨token, List.mem_append_left _ htoken, hkind⟩

theorem not_isVacant_of_parse {g : Goal} {v : g.Result} (h : parse g line = .ok v) : ¬ IsVacant line := by
  intro hvacant
  rw [parse_of_scan hvacant] at h
  cases g <;> cases h

/-- What can become of a line. -/
inductive Reading (line : List Char) : Except ParseError (Option Statement) → Prop where
  | vacant (h : IsVacant line) : Reading line (.ok none)
  | fact {a : Atom} (h : parse .fact line = .ok a) : Reading line (.ok (some (.fact a)))
  | rule {r : Rule} (h : parse .rule line = .ok r) : Reading line (.ok (some (.rule r)))
  | rejected {e : ParseError} (h : IsRejected line) (hrule : HasArrow line → parse .rule line = .error e)
      (hfact : ¬ HasArrow line → parse .fact line = .error e) : Reading line (.error e)

/-- **A line is read as a fact, as a rule or not at all.** -/
theorem readLine_reading (cs : List Char) : Reading cs (readLine cs) := by
  cases hscan : scan cs with
  | error p =>
    have hparse (g : Goal) := parse_of_scan_error (g := g) hscan
    have hread : readLine cs = .error ⟨.strayCharacter (cs[p]?.getD ' '), cs, some p⟩ := by
      rw [readLine, tokensOf, hscan]
    rw [hread]
    refine .rejected ⟨fun hvacant => ?_, fun a ha => ?_, fun r hr => ?_⟩ (fun _ => hparse .rule) fun _ => hparse .fact
    · rw [IsVacant, hscan] at hvacant
      cases hvacant
    · rw [parseFact_ofList, hparse] at ha
      cases ha
    · rw [parseRule_ofList, hparse] at hr
      cases hr
  | ok tokens =>
    by_cases hne : tokens = []
    · subst hne
      have hread : readLine cs = .ok none := by rw [readLine, tokensOf, hscan]
      rw [hread]
      exact .vacant hscan
    have hvacant : ¬ IsVacant cs := by
      rw [IsVacant, hscan, Except.ok.injEq]
      exact hne
    by_cases harrow : HasArrow cs
    · obtain ⟨tokens', htokens', hmem⟩ := id harrow
      rw [hscan, Except.ok.injEq] at htokens'
      subst htokens'
      rw [readLine_of_arrow hscan hmem, ← parse_of_scan hscan]
      cases hparse : parse .rule cs with
      | ok r => exact .rule hparse
      | error e =>
        refine .rejected ⟨hvacant, fun a ha => ?_, fun r hr => ?_⟩ (fun _ => hparse) fun h => absurd harrow h
        · exact not_hasArrow_of_parse ((parseFact_ofList cs).symm.trans ha) harrow
        · rw [parseRule_ofList, hparse] at hr
          cases hr
    · have hmem : ∀ token ∈ tokens, token.kind ≠ .arrow :=
        fun token htoken hkind => harrow ⟨tokens, hscan, token, htoken, hkind⟩
      rw [readLine_of_forall_ne_arrow hscan hne hmem, ← parse_of_scan hscan]
      cases hparse : parse .fact cs with
      | ok a => exact .fact hparse
      | error e =>
        refine .rejected ⟨hvacant, fun a ha => ?_, fun r hr => ?_⟩ (fun h => absurd h harrow) fun _ => hparse
        · rw [parseFact_ofList, hparse] at ha
          cases ha
        · exact harrow (hasArrow_of_parse ((parseRule_ofList cs).symm.trans hr))

theorem isReadable_iff : IsReadable line ↔ ¬ IsRejected line := by
  have hreading := readLine_reading line
  rw [IsReadable]
  generalize readLine line = outcome at hreading
  cases hreading with
  | vacant h => exact iff_of_true ⟨_, rfl⟩ fun hrejected => hrejected.not_isVacant h
  | fact h => exact iff_of_true ⟨_, rfl⟩ fun hrejected => hrejected.not_fact _ ((parseFact_ofList line).trans h)
  | rule h => exact iff_of_true ⟨_, rfl⟩ fun hrejected => hrejected.not_rule _ ((parseRule_ofList line).trans h)
  | rejected h => exact iff_of_false (by rintro ⟨s, hs⟩; cases hs) (not_not_intro h)

theorem not_isRejected_iff : ¬ IsRejected line ↔ (¬ IsVacant line →
    (∃ a, parseFact (String.ofList line) = .ok a) ∨ ∃ r, parseRule (String.ofList line) = .ok r) := by
  constructor
  · intro h hvacant
    by_contra hnot
    rw [not_or] at hnot
    exact h ⟨hvacant, fun a ha => hnot.1 ⟨a, ha⟩, fun r hr => hnot.2 ⟨r, hr⟩⟩
  · rintro h hrejected
    rcases h hrejected.not_isVacant with ⟨a, ha⟩ | ⟨r, hr⟩
    · exact hrejected.not_fact a ha
    · exact hrejected.not_rule r hr

/-- The fact that the line is, if it is one. -/
def factOf? (line : List Char) : Option Atom := (parseFact (String.ofList line)).toOption

/-- The rule that the line is, if it is one. -/
def ruleOf? (line : List Char) : Option Rule := (parseRule (String.ofList line)).toOption

theorem factOf?_eq_some_iff : factOf? line = some a ↔ parse .fact line = .ok a := by
  rw [factOf?, parseFact_ofList]
  cases parse .fact line <;> simp [Except.toOption]

theorem ruleOf?_eq_some_iff : ruleOf? line = some r ↔ parse .rule line = .ok r := by
  rw [ruleOf?, parseRule_ofList]
  cases parse .rule line <;> simp [Except.toOption]

theorem factOf?_eq_none (h : ∀ a, parse .fact line ≠ .ok a) : factOf? line = none :=
  Option.eq_none_iff_forall_ne_some.2 fun a ha => h a (factOf?_eq_some_iff.1 ha)

theorem ruleOf?_eq_none (h : ∀ r, parse .rule line ≠ .ok r) : ruleOf? line = none :=
  Option.eq_none_iff_forall_ne_some.2 fun r hr => h r (ruleOf?_eq_some_iff.1 hr)

theorem bind_statement? (line : List Char) :
    (statement? line).bind Statement.fact? = factOf? line ∧
      (statement? line).bind Statement.rule? = ruleOf? line := by
  have hreading := readLine_reading line
  rw [statement?]
  generalize readLine line = outcome at hreading
  cases hreading with
  | vacant h =>
    rw [factOf?_eq_none fun a ha => not_isVacant_of_parse ha h,
      ruleOf?_eq_none fun r hr => not_isVacant_of_parse hr h]
    exact ⟨rfl, rfl⟩
  | fact h =>
    rw [factOf?_eq_some_iff.2 h, ruleOf?_eq_none fun r hr => not_hasArrow_of_parse h (hasArrow_of_parse hr)]
    exact ⟨rfl, rfl⟩
  | rule h =>
    rw [factOf?_eq_none fun a ha => not_hasArrow_of_parse ha (hasArrow_of_parse h), ruleOf?_eq_some_iff.2 h]
    exact ⟨rfl, rfl⟩
  | rejected h =>
    rw [factOf?_eq_none fun a ha => h.not_fact a ((parseFact_ofList line).trans ha),
      ruleOf?_eq_none fun r hr => h.not_rule r ((parseRule_ofList line).trans hr)]
    exact ⟨rfl, rfl⟩

/-! ### All lines -/

theorem facts_ofStatements_filterMap (lines : List (List Char)) :
    (Program.ofStatements (lines.filterMap statement?)).facts = lines.filterMap factOf? := by
  calc (lines.filterMap statement?).filterMap Statement.fact?
      = lines.filterMap fun line => (statement? line).bind Statement.fact? := List.filterMap_filterMap ..
    _ = lines.filterMap factOf? := by simp only [bind_statement?]

theorem rules_ofStatements_filterMap (lines : List (List Char)) :
    (Program.ofStatements (lines.filterMap statement?)).rules = lines.filterMap ruleOf? := by
  calc (lines.filterMap statement?).filterMap Statement.rule?
      = lines.filterMap fun line => (statement? line).bind Statement.rule? := List.filterMap_filterMap ..
    _ = lines.filterMap ruleOf? := by simp only [bind_statement?]

theorem exists_readLines_of_parseProgram {text : String} {p : Program} (h : parseProgram text = .ok p) :
    ∃ statements, readLines 1 (Text.lines text.toList) = .ok statements ∧ p = .ofStatements statements := by
  rw [parseProgram] at h
  cases hread : readLines 1 (Text.lines text.toList) with
  | error e =>
    rw [hread] at h
    cases h
  | ok statements =>
    rw [hread] at h
    cases h
    exact ⟨statements, rfl, rfl⟩

theorem readLines_of_parseProgram_eq_error {text : String} {e : ProgramError} (h : parseProgram text = .error e) :
    readLines 1 (Text.lines text.toList) = .error e := by
  rw [parseProgram] at h
  cases hread : readLines 1 (Text.lines text.toList) with
  | ok statements =>
    rw [hread] at h
    cases h
  | error e' =>
    rw [hread] at h
    cases h
    rfl

/-- The first line that cannot be read is the one that an error names. -/
theorem exists_of_readLines_eq_error {number : Nat} {lines : List (List Char)} {e : ProgramError}
    (h : readLines number lines = .error e) :
    ∃ before line after, lines = before ++ line :: after ∧ (∀ l ∈ before, IsReadable l) ∧
      readLine line = .error e.error ∧ e.line = number + before.length := by
  induction lines generalizing number with
  | nil => cases h
  | cons first lines ih =>
    rw [readLines] at h
    cases hfirst : readLine first with
    | error cause =>
      rw [hfirst] at h
      cases h
      exact ⟨[], first, lines, rfl, by simp, hfirst, rfl⟩
    | ok s =>
      have hrest : readLines (number + 1) lines = .error e := by
        rw [hfirst] at h
        cases s with
        | none => exact h
        | some statement =>
          cases hlines : readLines (number + 1) lines with
          | error e' =>
            rw [hlines] at h
            cases h
            rfl
          | ok statements =>
            rw [hlines] at h
            cases h
      obtain ⟨before, line, after, rfl, hbefore, hline, hnumber⟩ := ih hrest
      refine ⟨first :: before, line, after, rfl, ?_, hline, by rw [hnumber, List.length_cons]; omega⟩
      exact List.forall_mem_cons.2 ⟨⟨s, hfirst⟩, hbefore⟩

/-- What becomes of a program is what becomes of its lines as facts and as rules. -/
structure ReadByLines (text : String) (outcome : Except ProgramError Program) : Prop where
  /-- No line is a fact and a rule. -/
  exclusive : ∀ line ∈ Text.lines text.toList, ∀ a r, parseFact (String.ofList line) = .ok a →
    parseRule (String.ofList line) ≠ .ok r
  succeeds : (∃ p, outcome = .ok p) ↔ ∀ line ∈ Text.lines text.toList, ¬ IsVacant line →
    (∃ a, parseFact (String.ofList line) = .ok a) ∨ ∃ r, parseRule (String.ofList line) = .ok r
  states : ∀ p, outcome = .ok p → p.facts = (Text.lines text.toList).filterMap factOf? ∧
    p.rules = (Text.lines text.toList).filterMap ruleOf?
  /-- The first line that is rejected is named, with what is wrong with it as a rule if it has an arrow, and as a
  fact otherwise. -/
  fails : ∀ e, outcome = .error e → ∃ before line after cause, Text.lines text.toList = before ++ line :: after ∧
    (∀ l ∈ before, ¬ IsRejected l) ∧ IsRejected line ∧
    (HasArrow line → parseRule (String.ofList line) = .error cause) ∧
    (¬ HasArrow line → parseFact (String.ofList line) = .error cause) ∧
    e = { line := before.length + 1, error := cause } ∧
    e.message = "Line " ++ toString (before.length + 1) ++ ": " ++ cause.message

theorem parseProgram_readByLines (text : String) : ReadByLines text (parseProgram text) where
  exclusive line _ a r ha hr :=
    not_hasArrow_of_parse ((parseFact_ofList line).symm.trans ha)
      (hasArrow_of_parse ((parseRule_ofList line).symm.trans hr))
  succeeds := by
    calc (∃ p, parseProgram text = .ok p)
        ↔ ∀ line ∈ Text.lines text.toList, IsReadable line := by simp [parseProgram_eq_ok_iff]
      _ ↔ _ := by simp only [isReadable_iff, not_isRejected_iff]
  states p hp := by
    rw [parseProgram_eq_ok_iff] at hp
    obtain ⟨-, rfl⟩ := hp
    exact ⟨facts_ofStatements_filterMap _, rules_ofStatements_filterMap _⟩
  fails e he := by
    obtain ⟨before, line, after, heq, hbefore, hline, hnumber⟩ :=
      exists_of_readLines_eq_error (readLines_of_parseProgram_eq_error he)
    have hreading := readLine_reading line
    rw [hline] at hreading
    cases hreading with
    | rejected h hrule hfact =>
      have he : e = { line := before.length + 1, error := e.error } := by
        rw [Nat.add_comm, ← hnumber]
      refine ⟨before, line, after, e.error, heq, fun l hl => isReadable_iff.1 (hbefore l hl), h, ?_, ?_, he, ?_⟩
      · rwa [parseRule_ofList]
      · rwa [parseFact_ofList]
      · rw [ProgramError.message, hnumber, Nat.add_comm 1]

/-! ### Two programs -/

theorem readLines_append (number : Nat) (first second : List (List Char)) :
    readLines number (first ++ second) = (readLines number first).bind fun before =>
      (readLines (number + first.length) second).map (before ++ ·) := by
  induction first generalizing number with
  | nil =>
    show readLines number second = (readLines number second).map id
    cases readLines number second <;> rfl
  | cons line first ih =>
    rw [List.cons_append, readLines, readLines, ih, List.length_cons, ← Nat.add_assoc, Nat.add_right_comm]
    cases readLine line with
    | error cause => rfl
    | ok s =>
      cases s with
      | none => rfl
      | some statement =>
        cases readLines (number + 1) first with
        | error e => rfl
        | ok before => cases readLines (number + first.length + 1) second <;> rfl

theorem readLines_add (number k : Nat) (lines : List (List Char)) :
    readLines (number + k) lines = (readLines number lines).mapError fun e => { e with line := e.line + k } := by
  induction lines generalizing number with
  | nil => rfl
  | cons line lines ih =>
    rw [readLines, readLines, Nat.add_right_comm, ih]
    cases readLine line with
    | error cause => rfl
    | ok s =>
      cases s with
      | none => rfl
      | some statement => cases readLines (number + 1) lines <;> rfl

theorem readLines_append_lineFeed (number : Nat) (cs : List Char) :
    readLines number (Text.lines (cs ++ ['\n'])) = readLines number (Text.lines cs) := by
  rcases Text.lines_append_lineFeed cs with h | h
  · rw [h]
  · rw [h, readLines_append]
    cases readLines number (Text.lines cs) with
    | error e => rfl
    | ok statements =>
      show Except.ok (statements ++ []) = _
      rw [List.append_nil]

theorem ofStatements_append (first second : List Statement) :
    Program.ofStatements (first ++ second) =
      { facts := (Program.ofStatements first).facts ++ (Program.ofStatements second).facts
        rules := (Program.ofStatements first).rules ++ (Program.ofStatements second).rules } := by
  simp [Program.ofStatements]

/-- What becomes of two programs with a line feed between them. -/
structure JoinsTo (a b : String) (outcome : Except ProgramError Program) : Prop where
  both : ∀ p q, parseProgram a = .ok p → parseProgram b = .ok q →
    outcome = .ok { facts := p.facts ++ q.facts, rules := p.rules ++ q.rules }
  first : ∀ e, parseProgram a = .error e → outcome = .error e
  /-- The lines of the second program are counted from the end of the first one on. -/
  second : ∀ p e, parseProgram a = .ok p → parseProgram b = .error e →
    outcome = .error { e with line := e.line + (Text.lines (a ++ "\n").toList).length }

theorem parseProgram_joinsTo (a b : String) : JoinsTo a b (parseProgram (a ++ "\n" ++ b)) := by
  have hjoined : readLines 1 (Text.lines (a ++ "\n" ++ b).toList) =
      (readLines 1 (Text.lines a.toList)).bind fun before =>
        ((readLines 1 (Text.lines b.toList)).mapError fun e =>
          { e with line := e.line + (Text.lines (a ++ "\n").toList).length }).map (before ++ ·) := by
    have hlist : (a ++ "\n" ++ b).toList = a.toList ++ '\n' :: b.toList := by simp
    have hfirst : (a ++ "\n").toList = a.toList ++ ['\n'] := by simp
    rw [hlist, hfirst, Text.lines_append_lineFeed_append, readLines_append, readLines_append_lineFeed, readLines_add]
  refine ⟨fun p q hp hq => ?_, fun e he => ?_, fun p e hp he => ?_⟩
  · obtain ⟨before, hbefore, rfl⟩ := exists_readLines_of_parseProgram hp
    obtain ⟨behind, hbehind, rfl⟩ := exists_readLines_of_parseProgram hq
    rw [parseProgram, hjoined, hbefore, hbehind, ← ofStatements_append]
    rfl
  · rw [parseProgram, hjoined, readLines_of_parseProgram_eq_error he]
    rfl
  · obtain ⟨before, hbefore, rfl⟩ := exists_readLines_of_parseProgram hp
    rw [parseProgram, hjoined, hbefore, readLines_of_parseProgram_eq_error he]
    rfl

/-- **A program is read line by line**, and two programs with a line feed between them are read as both of them
are.  A line states nothing if it holds blanks and comments at most; what cannot be cut into tokens is rejected. -/
theorem parseProgram_lineByLine :
    (∀ text, ReadByLines text (parseProgram text)) ∧ ∀ a b, JoinsTo a b (parseProgram (a ++ "\n" ++ b)) :=
  ⟨parseProgram_readByLines, parseProgram_joinsTo⟩

/-- Arrows in a quotation and in a comment make no rule; a carriage return and a line feed end one line; and a line
with an arrow is rejected as a rule. -/
theorem parseProgram_lineByLine_arrows :
    (∃ p, parseProgram "p('=>')\r\n# => q\np(?x) => q(?x)" = .ok p ∧
      p.facts = [⟨"p", [.const (.text "=>")]⟩] ∧
      p.rules = [{ antecedents := [⟨"p", [.var "x"]⟩], consequent := ⟨"q", [.var "x"]⟩ }]) ∧
    (∃ e, parseProgram "p\n\nq =>\n(" = .error e ∧ e.message = "Line 3: Expected a predicate in 'q =>'" ∧
      IsRejected "q =>".toList) ∧
    parseProgram ("p\r" ++ "\n" ++ "q") = .ok { facts := [⟨"p", []⟩, ⟨"q", []⟩], rules := [] } := by
  obtain ⟨hlines, hjoins⟩ := parseProgram_lineByLine
  refine ⟨⟨_, rfl, ?_⟩, ⟨_, rfl, rfl, ?_⟩, (hjoins "p\r" "q").both _ _ rfl rfl⟩
  · exact (hlines "p('=>')\r\n# => q\np(?x) => q(?x)").states _ rfl
  · obtain ⟨before, line, after, cause, heq, -, hrejected, -, -, hnumber, -⟩ :=
      (hlines "p\n\nq =>\n(").fails _ rfl
    have hlength : before.length = 2 := (Nat.succ.inj (congrArg ProgramError.line hnumber)).symm
    have hlist : before ++ line :: after = [['p'], []] ++ ["q =>".toList, ['(']] := heq.symm
    obtain ⟨-, htail⟩ := List.append_inj hlist hlength
    cases htail
    exact hrejected

end Notation

end ForwardChaining
