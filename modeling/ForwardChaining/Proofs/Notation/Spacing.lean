import ForwardChaining.Proofs.Notation.Lexemes

/-!
# Tokens and the gaps between them

A text that can be scanned consists of its tokens and of gaps between them (`LaidOut`): blanks, and comments up to
the line feeds that end them, of which the last one may go on to the end of the text.  Such a layout says all about
the scanner: `scanFrom_eq_ok_iff`.

Whether a token is cut off where it ends does not depend on much of what stands behind it.  A name ends where no
character of a name follows, and every other token ends by itself (`isCut_iff`).  A gap never begins with a character
of a name.  So gaps may be put between tokens wherever there are none and added where there are some, without a change
in the tokens but for their positions: `LaidOut.insert_gap` and, with blanks for all gaps, `consists_intercalate`.
-/

namespace ForwardChaining.Notation

variable {cs piece rest gap gap' : List Char} {kind : TokenKind} {token : Token} {tokens : List Token}
  {n position : Nat}

/-- A token without its position. -/
def Token.content (token : Token) : TokenKind × List Char := (token.kind, token.text)

/-- The position behind a token. -/
def Token.stop (token : Token) : Nat := token.position + token.text.length

/-! ### Where a token ends -/

/-- The kinds of tokens that go on as long as characters of a name follow. -/
def TokenKind.IsName (kind : TokenKind) : Prop := kind = .identifier ∨ kind = .variableName

theorem IsLexeme.lexeme?_eq (h : IsLexeme (some kind) piece) (hrest : kind.IsName → Boundary rest) :
    lexeme? (piece ++ rest) = some (some kind, piece.length) := by
  cases h with
  | variableName hc hcs => exact lexeme?_variableName hc hcs (hrest (.inr rfl))
  | @quotation quote body s hquote h =>
    rw [lexeme?_quotation hquote h, List.length_cons, List.length_append, List.length_singleton]
  | @identifier c cs h =>
    exact lexeme?_name (h c (by simp)) (fun c' hc' => h c' (List.mem_cons_of_mem _ hc')) (hrest (.inl rfl))
  | _ => rfl

theorem IsCut.boundary (h : IsCut (some kind) piece rest) (hkind : kind.IsName) : Boundary rest := by
  intro c hc
  obtain ⟨rest, rfl⟩ := List.head?_eq_some_iff.1 hc
  by_contra hname
  have hname : isNameChar c = true := by simpa using hname
  have hlonger : IsLexeme (some kind) (piece ++ [c]) := by
    have hend {cs : List Char} (hcs : ∀ c' ∈ cs, isNameChar c' = true) : ∀ c' ∈ cs ++ [c], isNameChar c' = true := by
      simpa [or_imp, forall_and, hname] using hcs
    cases h.isLexeme with
    | variableName hc hcs => exact .variableName hc (hend hcs)
    | identifier hcs => exact .identifier (hend hcs)
    | _ => rcases hkind with hkind | hkind <;> cases hkind
  have hle := h.longest _ (piece ++ [c]) rest (by simp) hlonger
  simp only [List.length_append, List.length_singleton] at hle
  omega

/-- **A token is cut off if it is a name before something else, or no name.** -/
theorem isCut_iff : IsCut (some kind) piece rest ↔ IsLexeme (some kind) piece ∧ (kind.IsName → Boundary rest) :=
  ⟨fun h => ⟨h.isLexeme, h.boundary⟩, fun h => lexeme?_eq_some_iff.1 (h.1.lexeme?_eq h.2)⟩

/-! ### Gaps -/

theorem IsGap.append (h : IsGap gap) (h' : IsGap gap') : IsGap (gap ++ gap') := by
  induction h with
  | nil => exact h'
  | blank hc _ ih => exact .blank hc ih
  | comment hbody _ ih =>
    rw [List.cons_append, List.append_assoc]
    exact .comment hbody ih

/-- A gap at the end of a text, of which the last comment need not be ended. -/
inductive IsLastGap : List Char → Prop where
  | gap {gap : List Char} (h : IsGap gap) : IsLastGap gap
  | comment {gap body : List Char} (h : IsGap gap) (hbody : ∀ c ∈ body, c ≠ '\n') : IsLastGap (gap ++ '#' :: body)

theorem IsGap.append_last (h : IsGap gap) (h' : IsLastGap gap') : IsLastGap (gap ++ gap') := by
  cases h' with
  | gap h' => exact .gap (h.append h')
  | comment h' hbody =>
    rw [← List.append_assoc]
    exact .comment (h.append h') hbody

theorem IsLastGap.scanFrom_eq (h : IsLastGap gap) (position : Nat) : scanFrom 0 position gap = .ok [] := by
  cases h with
  | gap h =>
    have heq := scanFrom_gap h position []
    rwa [List.append_nil] at heq
  | @comment gap body h hbody =>
    have htake : body.takeWhile (· ≠ '\n') = body :=
      List.takeWhile_eq_self_iff.2 fun c hc => decide_eq_true (hbody c hc)
    have hlexeme : lexeme? ('#' :: body) = some (none, body.length + 1) := by
      rw [lexeme?, if_neg (by decide), if_pos rfl, htake]
    rw [scanFrom_gap h, scanFrom_of_skipped _ hlexeme, List.drop_eq_nil_of_le (by simp)]
    rfl

/-! ### Layouts -/

/-- The text, which begins at the position, consists of the tokens in their places and of gaps between them. -/
inductive LaidOut : Nat → List Char → List Token → Prop where
  | last {position : Nat} {gap : List Char} (hgap : IsLastGap gap) : LaidOut position gap []
  | token {position : Nat} {gap rest : List Char} {token : Token} {tokens : List Token} (hgap : IsGap gap)
      (hposition : token.position = position + gap.length) (hcut : IsCut (some token.kind) token.text rest)
      (h : LaidOut token.stop rest tokens) : LaidOut position (gap ++ (token.text ++ rest)) (token :: tokens)

theorem LaidOut.scanFrom_eq (h : LaidOut position cs tokens) : scanFrom 0 position cs = .ok tokens := by
  induction h with
  | last hgap => exact hgap.scanFrom_eq _
  | @token position gap rest token tokens hgap hposition hcut _ ih =>
    have hlexeme := lexeme?_eq_some_iff.2 hcut
    rw [scanFrom_gap hgap, ← hposition, scanFrom_of_token _ hlexeme, List.drop_left, List.take_left, ← Token.stop, ih]
    rfl

theorem LaidOut.gap_append (hgap : IsGap gap) (h : LaidOut (position + gap.length) cs tokens) :
    LaidOut position (gap ++ cs) tokens := by
  cases h with
  | last hlast => exact .last (hgap.append_last hlast)
  | token hgap' hposition hcut h =>
    rw [← List.append_assoc]
    exact .token (hgap.append hgap') (by simpa [Nat.add_assoc] using hposition) hcut h

/-- **A text that can be scanned is laid out in its tokens.** -/
theorem laidOut_of_scanFrom (h : scanFrom 0 position cs = .ok tokens) : LaidOut position cs tokens := by
  induction hn : cs.length using Nat.strongRecOn generalizing position cs tokens with
  | ind n ih =>
    subst hn
    cases cs with
    | nil =>
      cases h
      exact .last (.gap .nil)
    | cons c rest =>
      by_cases hblank : Text.isBlank c = true
      · rw [scanFrom_blank position hblank] at h
        exact (ih _ (by simp) h rfl).gap_append (.blank hblank .nil)
      by_cases hhash : c = '#'
      · subst hhash
        by_cases hend : '\n' ∈ rest
        · obtain ⟨body, rest, rfl, hbody⟩ := List.eq_append_cons_of_mem hend
          have hgap : IsGap ('#' :: (body ++ ['\n'])) := .comment (fun c hc hcn => hbody (hcn ▸ hc)) .nil
          have hsplit : '#' :: (body ++ '\n' :: rest) = '#' :: (body ++ ['\n']) ++ rest := by simp
          rw [hsplit] at h ⊢
          rw [scanFrom_gap hgap] at h
          exact (ih _ (by simp; omega) h rfl).gap_append hgap
        · have hgap : IsLastGap ('#' :: rest) := .comment .nil fun c hc hcn => hend (hcn ▸ hc)
          rw [hgap.scanFrom_eq] at h
          cases h
          exact .last hgap
      cases hlexeme : lexeme? (c :: rest) with
      | none =>
        rw [scanFrom_of_none position hlexeme] at h
        cases h
      | some lexeme =>
        obtain ⟨kind?, n⟩ := lexeme
        obtain ⟨piece, behind, heq, rfl, hpiece⟩ := exists_isLexeme hlexeme
        have hpos : 0 < piece.length := List.length_pos_iff.2 hpiece.ne_nil
        rw [heq] at h hlexeme ih ⊢
        cases kind? with
        | none =>
          -- What is passed over begins with a blank or with the mark of a comment.
          cases hpiece with
          | blanks hblanks =>
            cases heq
            exact absurd (hblanks c (by simp)) hblank
          | comment _ =>
            cases heq
            exact absurd rfl hhash
        | some kind =>
          rw [scanFrom_of_token position hlexeme, List.drop_left, List.take_left] at h
          cases hbehind : scanFrom 0 (position + piece.length) behind with
          | error p =>
            rw [hbehind] at h
            cases h
          | ok others =>
            rw [hbehind] at h
            cases h
            have hrest := ih behind.length (by simp; omega) hbehind rfl
            let first : Token := { kind, text := piece, position }
            have hfirst : LaidOut position ([] ++ (first.text ++ behind)) (first :: others) :=
              .token .nil rfl (lexeme?_eq_some_iff.1 hlexeme) hrest
            exact hfirst

theorem scanFrom_eq_ok_iff : scanFrom 0 position cs = .ok tokens ↔ LaidOut position cs tokens :=
  ⟨laidOut_of_scanFrom, LaidOut.scanFrom_eq⟩

/-! ### Places -/

theorem LaidOut.le_position (h : LaidOut position cs tokens) : ∀ t ∈ tokens, position ≤ t.position := by
  induction h with
  | last => simp
  | @token position gap rest token tokens hgap hposition hcut _ ih =>
    intro t ht
    rcases List.mem_cons.1 ht with rfl | ht
    · omega
    · have := ih t ht
      rw [Token.stop] at this
      omega

theorem LaidOut.apart (h : LaidOut position cs tokens) :
    tokens.Pairwise fun t t' => t.position < t'.position ∧ t.stop ≤ t'.position := by
  induction h with
  | last => exact .nil
  | @token position gap rest token tokens hgap hposition hcut h ih =>
    have hpos : 0 < token.text.length := List.length_pos_iff.2 hcut.isLexeme.ne_nil
    have hstop : token.stop = token.position + token.text.length := rfl
    refine .cons (fun t ht => ?_) ih
    have hle := h.le_position t ht
    exact ⟨by omega, hle⟩

/-- **The text of a token is what stands in its place.** -/
theorem LaidOut.take_drop (h : LaidOut position cs tokens) :
    ∀ t ∈ tokens, (cs.drop (t.position - position)).take t.text.length = t.text := by
  induction h with
  | last => simp
  | @token position gap rest token tokens hgap hposition hcut h ih =>
    intro t ht
    rcases List.mem_cons.1 ht with rfl | ht
    · rw [hposition, Nat.add_sub_cancel_left, List.drop_left, List.take_left]
    · have hle := h.le_position t ht
      have hoffset : t.position - position = (gap ++ token.text).length + (t.position - token.stop) := by
        rw [Token.stop] at hle ⊢
        rw [List.length_append]
        omega
      rw [← List.append_assoc, hoffset, ← List.drop_drop, List.drop_left]
      exact ih t ht

/-! ### Other gaps -/

/-- The text consists of tokens with the given contents and of gaps. -/
def Consists (cs : List Char) (contents : List (TokenKind × List Char)) : Prop :=
  ∃ position tokens, LaidOut position cs tokens ∧ tokens.map Token.content = contents

variable {contents : List (TokenKind × List Char)}

theorem LaidOut.exists_at (h : LaidOut position cs tokens) (n : Nat) :
    ∃ tokens', LaidOut n cs tokens' ∧ tokens'.map Token.content = tokens.map Token.content := by
  induction h generalizing n with
  | last hgap => exact ⟨[], .last hgap, rfl⟩
  | @token position gap rest token tokens hgap hposition hcut _ ih =>
    let moved : Token := { token with position := n + gap.length }
    obtain ⟨tokens', h', hcontent⟩ := ih moved.stop
    have hmoved : LaidOut n (gap ++ (moved.text ++ rest)) (moved :: tokens') := .token hgap rfl hcut h'
    exact ⟨moved :: tokens', hmoved, congrArg (token.content :: ·) hcontent⟩

namespace Consists

theorem exists_laidOut (h : Consists cs contents) (n : Nat) :
    ∃ tokens, LaidOut n cs tokens ∧ tokens.map Token.content = contents := by
  obtain ⟨position, tokens, h, rfl⟩ := h
  exact h.exists_at n

theorem gap_append (hgap : IsGap gap) (h : Consists cs contents) : Consists (gap ++ cs) contents := by
  obtain ⟨tokens, h, hcontents⟩ := h.exists_laidOut gap.length
  exact ⟨0, tokens, .gap_append hgap (by rwa [Nat.zero_add]), hcontents⟩

theorem token_append (hlexeme : IsLexeme (some kind) piece) (hname : kind.IsName → Boundary rest)
    (h : Consists rest contents) : Consists (piece ++ rest) ((kind, piece) :: contents) := by
  let token : Token := { kind, text := piece, position := 0 }
  obtain ⟨tokens, h, hcontents⟩ := h.exists_laidOut token.stop
  have htoken : LaidOut 0 ([] ++ (token.text ++ rest)) (token :: tokens) :=
    .token .nil rfl (isCut_iff.2 ⟨hlexeme, hname⟩) h
  exact ⟨0, token :: tokens, htoken, congrArg ((kind, piece) :: ·) hcontents⟩

theorem scan_eq (h : Consists cs contents) : (scan cs).map (·.map Token.content) = .ok contents := by
  obtain ⟨tokens, hlaidOut, rfl⟩ := h.exists_laidOut 0
  rw [scan, hlaidOut.scanFrom_eq]
  rfl

end Consists

theorem Boundary.insert_gap (h : Boundary rest) (hgap : IsGap gap) (n : Nat) :
    Boundary (rest.take n ++ (gap ++ rest.drop n)) := by
  cases n with
  | zero => exact hgap.boundary_append h
  | succ n =>
    cases rest with
    | nil => exact hgap.boundary_append h
    | cons c rest => exact h

/-- **A gap may be put before or behind any token**, whatever stands there. -/
theorem LaidOut.insert_gap (h : LaidOut position cs tokens) (hgap : IsGap gap) (ht : token ∈ tokens)
    (hn : position + n = token.position ∨ position + n = token.stop) :
    Consists (cs.take n ++ (gap ++ cs.drop n)) (tokens.map Token.content) := by
  induction h generalizing n with
  | last => cases ht
  | @token position gap₀ rest first tokens hgap₀ hposition hcut h ih =>
    obtain ⟨hlexeme, hname⟩ := isCut_iff.1 hcut
    have hrest : Consists rest (tokens.map Token.content) := ⟨_, tokens, h, rfl⟩
    -- Before the first token the gap joins the one that is there; anywhere else it is put into what follows the token.
    by_cases hstart : n = gap₀.length
    · subst hstart
      rw [List.take_left, List.drop_left]
      exact .gap_append hgap₀ (.gap_append hgap (hrest.token_append hlexeme hname))
    · have hle : gap₀.length + first.text.length ≤ n := by
        rcases List.mem_cons.1 ht with rfl | ht
        · rw [Token.stop] at hn
          omega
        · have := h.le_position token ht
          rw [Token.stop] at this hn
          omega
      obtain ⟨m, rfl⟩ := Nat.exists_eq_add_of_le hle
      have hbehind : Consists (rest.take m ++ (gap ++ rest.drop m)) (tokens.map Token.content) := by
        rcases List.mem_cons.1 ht with rfl | ht
        · obtain rfl : m = 0 := by
            rw [Token.stop] at hn
            omega
          simpa using hrest.gap_append hgap
        · have hstop : first.stop = first.position + first.text.length := rfl
          exact ih ht (by omega)
      have hcut' : first.kind.IsName → Boundary (rest.take m ++ (gap ++ rest.drop m)) :=
        fun hkind => (hname hkind).insert_gap hgap m
      have heq : (gap₀ ++ (first.text ++ rest)).take (gap₀.length + first.text.length + m) ++
          (gap ++ (gap₀ ++ (first.text ++ rest)).drop (gap₀.length + first.text.length + m)) =
            gap₀ ++ (first.text ++ (rest.take m ++ (gap ++ rest.drop m))) := by
        rw [← List.append_assoc gap₀, ← List.length_append, List.take_length_add_append,
          List.drop_length_add_append]
        simp
      rw [heq]
      exact .gap_append hgap₀ (hbehind.token_append hlexeme hcut')

/-- **Tokens stay what they are if single blanks stand between them.** -/
theorem consists_intercalate (h : ∀ t ∈ tokens, IsLexeme (some t.kind) t.text) :
    Consists ([' '].intercalate (tokens.map Token.text)) (tokens.map Token.content) := by
  induction tokens with
  | nil => exact ⟨0, [], .last (.gap .nil), rfl⟩
  | cons first others ih =>
    obtain ⟨hfirst, hothers⟩ := List.forall_mem_cons.1 h
    have hblank : IsGap [' '] := .blank rfl .nil
    cases others with
    | nil =>
      have hend : Consists [] [] := ⟨0, [], .last (.gap .nil), rfl⟩
      have hone := hend.token_append hfirst fun _ => boundary_nil
      simpa [Token.content] using hone
    | cons second others =>
      exact ((ih hothers).gap_append hblank).token_append hfirst fun _ => boundary_cons rfl

/-! ### What the scanner finds -/

/-- How the tokens of a text lie in it, and what does not matter to them. -/
structure Partitions (cs : List Char) (tokens : List Token) : Prop where
  /-- Between the tokens, before the first and behind the last there are blanks, and comments that go on to a line feed
  or to the end of the text. -/
  laidOut : LaidOut 0 cs tokens
  /-- The tokens come in order, and each of them ends before the next one begins. -/
  apart : tokens.Pairwise fun t t' => t.position < t'.position ∧ t.stop ≤ t'.position
  /-- A token is the text that is found in its place. -/
  found : ∀ t ∈ tokens, t.text ≠ [] ∧ (cs.drop t.position).take t.text.length = t.text
  /-- With single blanks between them the tokens are scanned again as the same. -/
  rejoined : (scan ([' '].intercalate (tokens.map Token.text))).map (·.map Token.content) =
    .ok (tokens.map Token.content)
  /-- Blanks and ended comments before or behind a token leave all tokens the same. -/
  spaced : ∀ t ∈ tokens, ∀ n, n = t.position ∨ n = t.stop → ∀ gap, IsGap gap →
    (scan (cs.take n ++ (gap ++ cs.drop n))).map (·.map Token.content) = .ok (tokens.map Token.content)

/-- **The scanner partitions a text into tokens and gaps.**  It comes to an end on every text.  If it succeeds, its
tokens lie apart in the text, in their order and with nothing but gaps around them, and they are the same with other
gaps between them. -/
theorem scan_partitions (cs : List Char) :
    Unbounded.scan 0 cs = some (scan cs) ∧ ∀ tokens, scan cs = .ok tokens → Partitions cs tokens := by
  refine ⟨unbounded_scan_eq 0 cs, fun tokens h => ?_⟩
  have hlaidOut : LaidOut 0 cs tokens := scanFrom_eq_ok_iff.1 h
  have hlexeme : ∀ t ∈ tokens, IsLexeme (some t.kind) t.text := fun t => isLexeme_of_scan h
  exact {
    laidOut := hlaidOut
    apart := hlaidOut.apart
    found := fun t ht => ⟨(hlexeme t ht).ne_nil, hlaidOut.take_drop t ht⟩
    rejoined := (consists_intercalate hlexeme).scan_eq
    spaced := fun t ht n hn gap hgap => (hlaidOut.insert_gap hgap ht (by simpa using hn)).scan_eq }

/-- A quotation holds the mark of a comment and a line feed, and a comment is put before the comma. -/
theorem scan_partitions_commented :
    let cs := "p(?X,'#\n')=>q# )".toList
    ∃ tokens, scan cs = .ok tokens ∧ tokens.map Token.position = [0, 1, 2, 4, 5, 9, 10, 12] ∧ Partitions cs tokens ∧
      (scan "p(?X# )\n,'#\n')=>q# )".toList).map (·.map Token.content) = .ok (tokens.map Token.content) := by
  intro cs
  obtain ⟨tokens, h, hpositions⟩ :
      ∃ tokens, scan cs = .ok tokens ∧ tokens.map Token.position = [0, 1, 2, 4, 5, 9, 10, 12] := ⟨_, rfl, rfl⟩
  have hpartitions : Partitions cs tokens := (scan_partitions cs).2 tokens h
  have hcomma : ∃ t ∈ tokens, t.position = 4 := List.mem_map.1 (hpositions ▸ by decide)
  obtain ⟨t, ht, hposition⟩ := hcomma
  have hgap : IsGap "# )\n".toList := @IsGap.comment [' ', ')'] [] (by simp) .nil
  exact ⟨tokens, h, hpositions, hpartitions, hpartitions.spaced t ht 4 (.inl hposition.symm) _ hgap⟩

end ForwardChaining.Notation
