import ForwardChaining.Proofs.Notation.Scanning
import Mathlib.Data.List.TakeWhile

/-!
# Lexemes

What a lexeme looks like, apart from the way in which it is found: `IsLexeme` has one case for each form that a
lexeme can have, and `Quotes` says of the inside of a quotation which text it stands for.

* `lexeme?_eq_some_iff`: the lexeme that a text begins with is the longest one that stands at its front.
* `lexeme?_eq_none_iff`: a text begins with no lexeme if none of the forms stands at its front.
* `scanFrom_scansTo`: the scanner goes from lexeme to lexeme.  Hence its tokens are lexemes,
  `ScansTo.isLexeme`, and where it stops no lexeme begins, `scan_eq_error_iff`.
-/

namespace ForwardChaining.Notation

variable {c quote : Char} {cs body s piece rest behind : List Char} {kind : TokenKind} {kind? : Option TokenKind}
  {n p position : Nat}

/-! ### Quotations -/

/-- The two kinds of quotes. -/
def IsQuote (c : Char) : Prop := c = '"' ∨ c = '\''

instance (c : Char) : Decidable (IsQuote c) := inferInstanceAs (Decidable (_ ∨ _))

theorem IsQuote.ne_backslash (h : IsQuote quote) : quote ≠ '\\' := by
  rcases h with rfl | rfl <;> decide

theorem IsQuote.ne_lineFeed (h : IsQuote quote) : quote ≠ '\n' := by
  rcases h with rfl | rfl <;> decide

/-- The inside of a quotation, and the text that it stands for.  A backslash takes the character behind it along,
which must not be a line feed; any other character but the quote stands for itself. -/
inductive Quotes (quote : Char) : List Char → List Char → Prop where
  | nil : Quotes quote [] []
  | plain {c : Char} {body s : List Char} (hquote : c ≠ quote) (hbackslash : c ≠ '\\') (h : Quotes quote body s) :
      Quotes quote (c :: body) (c :: s)
  | pair {c : Char} {body s : List Char} (hc : c ≠ '\n') (h : Quotes quote body s) :
      Quotes quote ('\\' :: c :: body) (c :: s)

namespace Quotes

theorem unescape_eq (h : Quotes quote body s) : unescape body = s := by
  induction h with
  | nil => rfl
  | plain _ hbackslash _ ih =>
    rw [unescape, ih]
    exact fun _ _ hc _ => hbackslash hc
  | pair _ _ ih => rw [unescape, ih]

theorem unquote_eq (h : Quotes quote body s) : unquote (quote :: (body ++ [quote])) = s := by
  simp [unquote, h.unescape_eq]

theorem quotationLength?_eq (h : Quotes quote body s) (hquote : quote ≠ '\\') (rest : List Char) :
    quotationLength? quote (body ++ quote :: rest) = some (body.length + 1) := by
  induction h with
  | nil =>
    rw [List.nil_append, quotationLength?, if_pos rfl]
    · rfl
    · exact fun _ _ hc _ => hquote hc
  | plain hne hbackslash _ ih =>
    rw [List.cons_append, quotationLength?, if_neg hne, if_neg hbackslash, ih]
    · rfl
    · exact fun _ _ hc _ => hbackslash hc
  | pair hc _ ih =>
    rw [List.cons_append, List.cons_append, quotationLength?, if_neg hc, ih]
    rfl

end Quotes

theorem exists_quotes (h : quotationLength? quote cs = some n) :
    ∃ body s rest, Quotes quote body s ∧ cs = body ++ quote :: rest ∧ n = body.length + 1 := by
  induction cs using quotationLength?.induct quote generalizing n with
  | case1 => cases h
  | case2 rest =>
    rw [quotationLength?, if_pos rfl] at h
    cases h
  | case3 c rest hc ih =>
    rw [quotationLength?, if_neg hc] at h
    obtain ⟨m, hm, rfl⟩ := Option.map_eq_some_iff.1 h
    obtain ⟨body, s, rest', hbody, rfl, rfl⟩ := ih hm
    exact ⟨_, _, rest', .pair hc hbody, rfl, rfl⟩
  | case4 rest hpair =>
    rw [quotationLength?, if_pos rfl] at h
    · cases h
      exact ⟨[], [], rest, .nil, rfl, rfl⟩
    · exact hpair
  | case5 rest hpair hquote =>
    rw [quotationLength?, if_neg hquote, if_pos rfl] at h
    · cases h
    · exact hpair
  | case6 c rest hpair hquote hbackslash ih =>
    rw [quotationLength?, if_neg hquote, if_neg hbackslash] at h
    · obtain ⟨m, hm, rfl⟩ := Option.map_eq_some_iff.1 h
      obtain ⟨body, s, rest', hbody, rfl, rfl⟩ := ih hm
      exact ⟨_, _, rest', .plain hquote hbackslash hbody, rfl, rfl⟩
    · exact hpair

/-! ### Forms -/

/-- The forms of lexemes.  Those of blanks and of comments are no tokens. -/
inductive IsLexeme : Option TokenKind → List Char → Prop where
  | blanks {c : Char} {cs : List Char} (h : ∀ c' ∈ c :: cs, Text.isBlank c' = true) : IsLexeme none (c :: cs)
  | comment {cs : List Char} (h : ∀ c ∈ cs, c ≠ '\n') : IsLexeme none ('#' :: cs)
  | arrow : IsLexeme (some .arrow) ['=', '>']
  | variableName {c : Char} {cs : List Char} (hc : isNameStart c = true) (hcs : ∀ c' ∈ cs, isNameChar c' = true) :
      IsLexeme (some .variableName) ('?' :: c :: cs)
  | quotation {quote : Char} {body s : List Char} (hquote : IsQuote quote) (h : Quotes quote body s) :
      IsLexeme (some .quotation) (quote :: (body ++ [quote]))
  | identifier {c : Char} {cs : List Char} (h : ∀ c' ∈ c :: cs, isNameChar c' = true) :
      IsLexeme (some .identifier) (c :: cs)
  | opening : IsLexeme (some .opening) ['(']
  | closing : IsLexeme (some .closing) [')']
  | comma : IsLexeme (some .comma) [',']
  | dot : IsLexeme (some .dot) ['.']

theorem IsLexeme.ne_nil (h : IsLexeme kind? piece) : piece ≠ [] := by
  cases h <;> simp

theorem exists_isLexeme (h : lexeme? cs = some (kind?, n)) :
    ∃ piece rest, cs = piece ++ rest ∧ n = piece.length ∧ IsLexeme kind? piece := by
  cases cs with
  | nil => cases h
  | cons c rest =>
    have hrun (p : Char → Bool) : c :: rest = c :: rest.takeWhile p ++ rest.dropWhile p := by
      rw [List.cons_append, List.takeWhile_append_dropWhile]
    rw [lexeme?] at h
    by_cases hblank : Text.isBlank c = true
    · rw [if_pos hblank] at h
      cases h
      refine ⟨_, _, hrun Text.isBlank, rfl, .blanks ?_⟩
      simpa [hblank] using fun c' => List.mem_takeWhile_imp
    rw [if_neg hblank] at h
    by_cases hhash : c = '#'
    · rw [if_pos hhash] at h
      cases h
      subst hhash
      exact ⟨_, _, hrun _, rfl, .comment fun c' hc' => by simpa using List.mem_takeWhile_imp hc'⟩
    rw [if_neg hhash] at h
    by_cases harrow : c = '='
    · rw [if_pos harrow] at h
      by_cases hgreater : rest.head? = some '>'
      · rw [if_pos hgreater] at h
        cases h
        subst harrow
        obtain ⟨rest, rfl⟩ := List.head?_eq_some_iff.1 hgreater
        exact ⟨['=', '>'], rest, rfl, rfl, .arrow⟩
      rw [if_neg hgreater] at h
      cases h
    rw [if_neg harrow] at h
    by_cases hvariable : c = '?'
    · rw [if_pos hvariable] at h
      by_cases hstart : rest.head?.any isNameStart = true
      · rw [if_pos hstart] at h
        cases h
        subst hvariable
        obtain ⟨c', rest, rfl, hc'⟩ : ∃ c' rest', rest = c' :: rest' ∧ isNameStart c' = true := by
          cases rest with
          | nil => cases hstart
          | cons c' rest' => exact ⟨c', rest', rfl, hstart⟩
        rw [List.takeWhile_cons_of_pos (isNameChar_of_isNameStart hc')]
        refine ⟨'?' :: c' :: rest.takeWhile isNameChar, rest.dropWhile isNameChar, ?_, rfl,
          .variableName hc' fun c'' => List.mem_takeWhile_imp⟩
        rw [List.cons_append, List.cons_append, List.takeWhile_append_dropWhile]
      rw [if_neg hstart] at h
      cases h
    rw [if_neg hvariable] at h
    by_cases hquote : c = '"' ∨ c = '\''
    · rw [if_pos hquote] at h
      obtain ⟨m, hm, heq⟩ := Option.map_eq_some_iff.1 h
      cases heq
      obtain ⟨body, s, rest', hbody, rfl, rfl⟩ := exists_quotes hm
      exact ⟨c :: (body ++ [c]), rest', by simp, by simp, .quotation hquote hbody⟩
    rw [if_neg hquote] at h
    by_cases hname : isNameChar c = true
    · rw [if_pos hname] at h
      cases h
      refine ⟨_, _, hrun isNameChar, rfl, .identifier ?_⟩
      simpa [hname] using fun c' => List.mem_takeWhile_imp
    rw [if_neg hname] at h
    by_cases hopening : c = '('
    · rw [if_pos hopening] at h
      cases h
      subst hopening
      exact ⟨_, rest, rfl, rfl, .opening⟩
    rw [if_neg hopening] at h
    by_cases hclosing : c = ')'
    · rw [if_pos hclosing] at h
      cases h
      subst hclosing
      exact ⟨_, rest, rfl, rfl, .closing⟩
    rw [if_neg hclosing] at h
    by_cases hcomma : c = ','
    · rw [if_pos hcomma] at h
      cases h
      subst hcomma
      exact ⟨_, rest, rfl, rfl, .comma⟩
    rw [if_neg hcomma] at h
    by_cases hdot : c = '.'
    · rw [if_pos hdot] at h
      cases h
      subst hdot
      exact ⟨_, rest, rfl, rfl, .dot⟩
    rw [if_neg hdot] at h
    cases h

theorem lexeme?_quotation (hquote : IsQuote quote) (h : Quotes quote body s) (rest : List Char) :
    lexeme? (quote :: (body ++ [quote]) ++ rest) = some (some .quotation, body.length + 2) := by
  rw [List.cons_append, List.append_assoc, List.singleton_append]
  have hlength := h.quotationLength?_eq hquote.ne_backslash rest
  rcases hquote with rfl | rfl
  · rw [lexeme?, if_neg (by decide), if_neg (by decide), if_neg (by decide), if_neg (by decide),
      if_pos (by decide), hlength]
    rfl
  · rw [lexeme?, if_neg (by decide), if_neg (by decide), if_neg (by decide), if_neg (by decide),
      if_pos (by decide), hlength]
    rfl

theorem exists_run (hcs : ∀ c ∈ cs, isNameChar c = true) (rest : List Char) :
    ∃ run behind, cs ++ rest = run ++ behind ∧ cs.length ≤ run.length ∧ (∀ c ∈ run, isNameChar c = true) ∧
      Boundary behind := by
  refine ⟨cs ++ rest.takeWhile isNameChar, rest.dropWhile isNameChar, ?_, by simp, ?_, ?_⟩
  · rw [List.append_assoc, List.takeWhile_append_dropWhile]
  · intro c hc
    exact (List.mem_append.1 hc).elim (hcs c) List.mem_takeWhile_imp
  · intro c hc
    have hhead := List.head?_dropWhile_not isNameChar rest
    rw [Option.mem_def.1 hc] at hhead
    exact hhead

theorem IsLexeme.exists_lexeme? (h : IsLexeme kind? piece) (rest : List Char) :
    ∃ n, lexeme? (piece ++ rest) = some (kind?, n) ∧ piece.length ≤ n := by
  cases h with
  | @blanks c cs h =>
    rw [List.cons_append, lexeme?, if_pos (h c (by simp))]
    refine ⟨_, rfl, ?_⟩
    rw [List.takeWhile_append_of_pos fun c' hc' => h c' (List.mem_cons_of_mem _ hc')]
    simp
  | @comment cs h =>
    rw [List.cons_append, lexeme?, if_neg (by decide), if_pos rfl]
    refine ⟨_, rfl, ?_⟩
    rw [List.takeWhile_append_of_pos fun c' hc' => decide_eq_true (h c' hc')]
    simp
  | arrow => exact ⟨2, rfl, Nat.le_refl _⟩
  | @variableName c cs hc hcs =>
    obtain ⟨run, behind, heq, hlength, hrun, hbehind⟩ := exists_run hcs rest
    rw [List.cons_append, List.cons_append, heq]
    exact ⟨_, lexeme?_variableName hc hrun hbehind, by simpa using hlength⟩
  | @quotation quote body s hquote h =>
    exact ⟨body.length + 2, lexeme?_quotation hquote h rest, by simp⟩
  | @identifier c cs h =>
    obtain ⟨run, behind, heq, hlength, hrun, hbehind⟩ := exists_run (fun c' hc' => h c' (.tail c hc')) rest
    rw [List.cons_append, heq]
    exact ⟨_, lexeme?_name (h c (by simp)) hrun hbehind, by simpa using hlength⟩
  | opening => exact ⟨1, rfl, Nat.le_refl _⟩
  | closing => exact ⟨1, rfl, Nat.le_refl _⟩
  | comma => exact ⟨1, rfl, Nat.le_refl _⟩
  | dot => exact ⟨1, rfl, Nat.le_refl _⟩

/-- The longest lexeme at the front of a text, and what stands behind it. -/
structure IsCut (kind? : Option TokenKind) (piece rest : List Char) : Prop where
  isLexeme : IsLexeme kind? piece
  longest : ∀ kind?' piece' rest', piece ++ rest = piece' ++ rest' → IsLexeme kind?' piece' →
    piece'.length ≤ piece.length

/-- No lexeme stands at the front of the text. -/
def IsStray (cs : List Char) : Prop := ∀ kind? piece rest, cs = piece ++ rest → ¬ IsLexeme kind? piece

/-- **A text begins with the longest lexeme at its front.** -/
theorem lexeme?_eq_some_iff :
    lexeme? (piece ++ rest) = some (kind?, piece.length) ↔ IsCut kind? piece rest := by
  constructor
  · intro h
    obtain ⟨piece', rest', heq, hlength, hpiece'⟩ := exists_isLexeme h
    obtain ⟨rfl, rfl⟩ := List.append_inj heq hlength
    refine ⟨hpiece', fun kind?' other behind hother hlexeme => ?_⟩
    obtain ⟨n, hn, hle⟩ := hlexeme.exists_lexeme? behind
    rw [← hother, h] at hn
    cases hn
    exact hle
  · intro h
    obtain ⟨n, hn, hle⟩ := h.isLexeme.exists_lexeme? rest
    obtain ⟨piece', rest', heq, hlength, hpiece'⟩ := exists_isLexeme hn
    have hlongest := h.longest _ _ _ heq hpiece'
    rw [hn, show n = piece.length by omega]

/-- **A text begins with no lexeme if none stands at its front.** -/
theorem lexeme?_eq_none_iff : lexeme? cs = none ↔ IsStray cs := by
  constructor
  · rintro h kind? piece rest rfl hpiece
    obtain ⟨n, hn, -⟩ := hpiece.exists_lexeme? rest
    rw [h] at hn
    cases hn
  · intro h
    rw [Option.eq_none_iff_forall_ne_some]
    rintro ⟨kind?, n⟩ hn
    obtain ⟨piece, rest, heq, -, hpiece⟩ := exists_isLexeme hn
    exact h kind? piece rest heq hpiece

/-! ### The way of the scanner -/

/-- What becomes of a text at a position if one longest lexeme after another is cut off. -/
inductive ScansTo : Nat → List Char → Except Nat (List Token) → Prop where
  | done (position : Nat) : ScansTo position [] (.ok [])
  | stray {cs : List Char} (position : Nat) (hne : cs ≠ []) (hstray : IsStray cs) :
      ScansTo position cs (.error position)
  | skipped {position : Nat} {piece rest : List Char} {outcome : Except Nat (List Token)}
      (hcut : IsCut none piece rest) (h : ScansTo (position + piece.length) rest outcome) :
      ScansTo position (piece ++ rest) outcome
  | token {position : Nat} {kind : TokenKind} {piece rest : List Char} {outcome : Except Nat (List Token)}
      (hcut : IsCut (some kind) piece rest) (h : ScansTo (position + piece.length) rest outcome) :
      ScansTo position (piece ++ rest) (outcome.map ({ kind, text := piece, position } :: ·))

/-- **The scanner cuts off one longest lexeme after another.** -/
theorem scanFrom_scansTo (position : Nat) (cs : List Char) : ScansTo position cs (scanFrom 0 position cs) := by
  induction hn : cs.length using Nat.strongRecOn generalizing position cs with
  | ind n ih =>
    subst hn
    cases hlexeme : lexeme? cs with
    | none =>
      cases cs with
      | nil => exact .done position
      | cons c rest =>
        rw [scanFrom_of_none position hlexeme]
        exact .stray position (by simp) (lexeme?_eq_none_iff.1 hlexeme)
    | some lexeme =>
      obtain ⟨kind?, n⟩ := lexeme
      obtain ⟨piece, rest, rfl, rfl, hpiece⟩ := exists_isLexeme hlexeme
      have hcut := lexeme?_eq_some_iff.1 hlexeme
      have hpos : 0 < piece.length := List.length_pos_iff.2 hpiece.ne_nil
      have hrest := ih rest.length (by simp; omega) (position + piece.length) rest rfl
      cases kind? with
      | none =>
        rw [scanFrom_of_skipped position hlexeme, List.drop_left]
        exact .skipped hcut hrest
      | some kind =>
        rw [scanFrom_of_token position hlexeme, List.drop_left, List.take_left]
        exact .token hcut hrest

theorem ScansTo.isLexeme {outcome : Except Nat (List Token)} (h : ScansTo position cs outcome) :
    ∀ tokens, outcome = .ok tokens → ∀ token ∈ tokens, IsLexeme (some token.kind) token.text := by
  induction h with
  | done =>
    rintro tokens ⟨⟩ token htoken
    cases htoken
  | stray => rintro tokens ⟨⟩
  | skipped _ _ ih => exact ih
  | @token position kind piece rest outcome hcut _ ih =>
    intro tokens htokens token htoken
    cases outcome with
    | error p => cases htokens
    | ok others =>
      cases htokens
      rcases List.mem_cons.1 htoken with rfl | htoken
      · exact hcut.isLexeme
      · exact ih others rfl token htoken

theorem isLexeme_of_scan {tokens : List Token} {token : Token} (h : scan cs = .ok tokens) (htoken : token ∈ tokens) :
    IsLexeme (some token.kind) token.text :=
  (scanFrom_scansTo 0 cs).isLexeme tokens h token htoken

/-- The text is cut up, lexeme after lexeme, as it stands before the rest. -/
inductive IsCutUp (rest : List Char) : List Char → Prop where
  | nil : IsCutUp rest []
  | cons {kind? : Option TokenKind} {piece behind : List Char} (hcut : IsCut kind? piece (behind ++ rest))
      (h : IsCutUp rest behind) : IsCutUp rest (piece ++ behind)

/-- Everything before the offset is cut up into lexemes, and there no lexeme stands. -/
def StraysAt (cs : List Char) (p : Nat) : Prop :=
  ∃ before rest, cs = before ++ rest ∧ p = before.length ∧ IsCutUp rest before ∧ rest ≠ [] ∧ IsStray rest

theorem ScansTo.exists_isCutUp {outcome : Except Nat (List Token)} (h : ScansTo position cs outcome) :
    ∀ p, outcome = .error p → ∃ before rest, cs = before ++ rest ∧ p = position + before.length ∧
      IsCutUp rest before ∧ rest ≠ [] ∧ IsStray rest := by
  induction h with
  | done => rintro p ⟨⟩
  | @stray cs position hne hstray =>
    rintro p ⟨⟩
    exact ⟨[], cs, rfl, rfl, .nil, hne, hstray⟩
  | @skipped position piece rest outcome hcut _ ih =>
    intro p hp
    obtain ⟨before, rest, rfl, rfl, hbefore, hrest⟩ := ih p hp
    refine ⟨piece ++ before, rest, by simp, by simp [Nat.add_assoc], .cons hcut hbefore, hrest⟩
  | @token position kind piece rest outcome hcut _ ih =>
    intro p hp
    cases outcome with
    | ok others => cases hp
    | error p' =>
      cases hp
      obtain ⟨before, rest, rfl, rfl, hbefore, hrest⟩ := ih _ rfl
      refine ⟨piece ++ before, rest, by simp, by simp [Nat.add_assoc], .cons hcut hbefore, hrest⟩

theorem IsCutUp.scanFrom_eq (h : IsCutUp rest piece) (hne : rest ≠ []) (hstray : IsStray rest) (position : Nat) :
    scanFrom 0 position (piece ++ rest) = .error (position + piece.length) := by
  induction h generalizing position with
  | nil =>
    obtain ⟨c, cs, rfl⟩ := List.exists_cons_of_ne_nil hne
    exact scanFrom_of_none position (lexeme?_eq_none_iff.2 hstray)
  | @cons kind? piece behind hcut _ ih =>
    have hlexeme := lexeme?_eq_some_iff.2 hcut
    rw [List.append_assoc, List.length_append, ← Nat.add_assoc]
    cases kind? with
    | none => rw [scanFrom_of_skipped position hlexeme, List.drop_left, ih]
    | some kind =>
      rw [scanFrom_of_token position hlexeme, List.drop_left, ih]
      rfl

/-- **The scanner stops where no lexeme stands** behind those that it has cut off. -/
theorem scan_eq_error_iff : scan cs = .error p ↔ StraysAt cs p := by
  constructor
  · intro h
    obtain ⟨before, rest, heq, hp, hbefore⟩ := (scanFrom_scansTo 0 cs).exists_isCutUp p h
    exact ⟨before, rest, heq, by omega, hbefore⟩
  · rintro ⟨before, rest, rfl, rfl, hbefore, hne, hstray⟩
    rw [scan, hbefore.scanFrom_eq hne hstray, Nat.zero_add]

end ForwardChaining.Notation
