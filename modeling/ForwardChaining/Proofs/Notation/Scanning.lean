import ForwardChaining.Proofs.Notation.Grammar
import ForwardChaining.Proofs.Unbounded.Notation

/-!
# Scanning

`scanFrom` goes through a text character by character and counts off those that belong to a lexeme already
taken.  In effect it goes from lexeme to lexeme: `scanFrom_of_skipped` and `scanFrom_of_token` say so for a
text that begins with a lexeme, and every lexeme has a character at least, `lexeme?_pos`.  So it is the loop
of `Unbounded.scan`, which comes to an end on every text.

Texts can be scanned piece by piece where no name runs on from one piece into the next, `Scans.append`.
-/

namespace ForwardChaining.Notation

variable {cs : List Char} {kind : TokenKind} {n : Nat}

theorem lexeme?_pos {kind? : Option TokenKind} (h : lexeme? cs = some (kind?, n)) : 0 < n := by
  suffices hpos : ∀ lexeme ∈ lexeme? cs, 0 < lexeme.2 from hpos (kind?, n) h
  cases cs with
  | nil => simp [lexeme?]
  | cons c rest =>
    rw [lexeme?]
    repeat' refine iteInduction (motive := fun o : Option (Option TokenKind × Nat) =>
      ∀ lexeme ∈ o, 0 < lexeme.2) (fun _ => ?_) fun _ => ?_
    all_goals simp

theorem scanFrom_skip (n position : Nat) (cs : List Char) :
    scanFrom n position cs = scanFrom 0 (position + n) (cs.drop n) := by
  induction n generalizing position cs with
  | zero => rfl
  | succ n ih =>
    cases cs with
    | nil => rfl
    | cons c rest => rw [scanFrom, ih, List.drop_succ_cons, Nat.add_right_comm, Nat.add_assoc]

/-- A lexeme that is no token is passed over. -/
theorem scanFrom_of_skipped (position : Nat) (h : lexeme? cs = some (none, n)) :
    scanFrom 0 position cs = scanFrom 0 (position + n) (cs.drop n) := by
  obtain ⟨m, rfl⟩ := Nat.exists_eq_add_one.2 (lexeme?_pos h)
  cases cs with
  | nil => cases h
  | cons c rest =>
    rw [scanFrom, h]
    simp only [Nat.add_sub_cancel]
    rw [scanFrom_skip, List.drop_succ_cons, Nat.add_right_comm, Nat.add_assoc]

/-- A token is taken, and what stands behind it is scanned likewise. -/
theorem scanFrom_of_token (position : Nat) (h : lexeme? cs = some (some kind, n)) :
    scanFrom 0 position cs =
      (scanFrom 0 (position + n) (cs.drop n)).map ({ kind, text := cs.take n, position } :: ·) := by
  obtain ⟨m, rfl⟩ := Nat.exists_eq_add_one.2 (lexeme?_pos h)
  cases cs with
  | nil => cases h
  | cons c rest =>
    rw [scanFrom, h]
    simp only [Nat.add_sub_cancel]
    rw [scanFrom_skip, List.drop_succ_cons, Nat.add_right_comm, Nat.add_assoc]
    cases scanFrom 0 (position + (m + 1)) (rest.drop m) <;> rfl

theorem scanFrom_of_none (position : Nat) {c : Char} {rest : List Char} (h : lexeme? (c :: rest) = none) :
    scanFrom 0 position (c :: rest) = .error position := by
  rw [scanFrom, h]

/-- **The loop over lexemes** comes to an end, with what the scanner finds. -/
theorem unbounded_scan_eq (position : Nat) (cs : List Char) :
    Unbounded.scan position cs = some (scanFrom 0 position cs) := by
  induction hn : cs.length using Nat.strongRecOn generalizing position cs with
  | ind n ih =>
    subst hn
    rw [Unbounded.scan]
    cases cs with
    | nil => rfl
    | cons c rest =>
      have hdrop (n : Nat) (hn : 0 < n) : ((c :: rest).drop n).length < (c :: rest).length := by
        simp
        omega
      simp only [List.isEmpty_cons, Bool.false_eq_true, if_false]
      split
      next h => rw [scanFrom_of_none position h]
      next n h => rw [scanFrom_of_skipped position h, ih _ (hdrop n (lexeme?_pos h)) _ _ rfl]
      next kind n h =>
        rw [scanFrom_of_token position h, ih _ (hdrop n (lexeme?_pos h)) _ _ rfl]
        rfl

/-! ### Characters of names -/

theorem toNat_of_isNameChar {c : Char} (h : isNameChar c = true) : 0x20 < c.toNat ∧ c.toNat < 0x80 := by
  delta isNameChar Char.isAlphanum Char.isAlpha Char.isUpper Char.isLower Char.isDigit at h
  simp only [Bool.or_eq_true, Bool.and_eq_true, decide_eq_true_eq, beq_iff_eq, ge_iff_le,
    UInt32.le_iff_toNat_le] at h
  rcases h with ((h | h) | h) | rfl
  · simp at h
    omega
  · simp at h
    omega
  · simp at h
    omega
  · decide

theorem isNameChar_of_isNameStart {c : Char} (h : isNameStart c = true) : isNameChar c = true := by
  simp only [isNameStart, isNameChar, Char.isAlphanum, Bool.or_eq_true] at h ⊢
  exact h.imp_left .inl

theorem not_isBlank_of_isNameChar {c : Char} (h : isNameChar c = true) : ¬ Text.isBlank c = true := by
  obtain ⟨hlower, hupper⟩ := toNat_of_isNameChar h
  simp only [Text.isBlank, Text.inRanges, Text.blankRanges]
  grind

/-! ### Pieces -/

/-- No name runs on into the text. -/
def Boundary (rest : List Char) : Prop := ∀ c ∈ rest.head?, isNameChar c = false

theorem boundary_nil : Boundary [] := by simp [Boundary]

theorem boundary_cons {c : Char} {rest : List Char} (h : isNameChar c = false) : Boundary (c :: rest) := by
  simpa [Boundary] using h

theorem takeWhile_append_boundary {name rest : List Char} (hname : ∀ c ∈ name, isNameChar c = true)
    (hrest : Boundary rest) : (name ++ rest).takeWhile isNameChar = name := by
  rw [List.takeWhile_append_of_pos hname]
  cases rest with
  | nil => simp
  | cons c rest =>
    have hc : isNameChar c = false := hrest c rfl
    simp [hc]

theorem lexeme?_name {c : Char} {cs rest : List Char} (hc : isNameChar c = true)
    (hcs : ∀ c ∈ cs, isNameChar c = true) (hrest : Boundary rest) :
    lexeme? (c :: (cs ++ rest)) = some (some .identifier, cs.length + 1) := by
  have hne (c' : Char) (hc' : isNameChar c' = false) : c ≠ c' := by
    rintro rfl
    simp [hc] at hc'
  have hquote : ¬ (c = '"' ∨ c = '\'') := by
    rintro (h | h)
    · exact hne '"' rfl h
    · exact hne '\'' rfl h
  rw [lexeme?, if_neg (not_isBlank_of_isNameChar hc), if_neg (hne '#' rfl), if_neg (hne '=' rfl),
    if_neg (hne '?' rfl), if_neg hquote, if_pos hc, takeWhile_append_boundary hcs hrest]

theorem lexeme?_variableName {c : Char} {cs rest : List Char} (hc : isNameStart c = true)
    (hcs : ∀ c ∈ cs, isNameChar c = true) (hrest : Boundary rest) :
    lexeme? ('?' :: c :: (cs ++ rest)) = some (some .variableName, cs.length + 2) := by
  have hname : ∀ c' ∈ c :: cs, isNameChar c' = true := by
    simpa using ⟨isNameChar_of_isNameStart hc, hcs⟩
  have htake : (c :: (cs ++ rest)).takeWhile isNameChar = c :: cs := takeWhile_append_boundary hname hrest
  rw [lexeme?, if_neg (by decide), if_neg (by decide), if_neg (by decide), if_pos rfl, if_pos (by simp [hc]),
    htake, List.length_cons]

/-- A blank is passed over, and those behind it with it. -/
theorem scanFrom_blank (position : Nat) {c : Char} (hc : Text.isBlank c = true) :
    scanFrom 0 position (c :: cs) = scanFrom 0 (position + 1) cs := by
  have hskip (position : Nat) (c : Char) (cs : List Char) (hc : Text.isBlank c = true) :
      scanFrom 0 position (c :: cs) =
        scanFrom 0 (position + ((cs.takeWhile Text.isBlank).length + 1))
          (cs.drop (cs.takeWhile Text.isBlank).length) :=
    scanFrom_of_skipped position (by rw [lexeme?, if_pos hc])
  rw [hskip position c cs hc]
  cases cs with
  | nil => rfl
  | cons c' cs =>
    by_cases hc' : Text.isBlank c' = true
    · rw [hskip _ c' cs hc', List.takeWhile_cons_of_pos hc', List.length_cons, List.drop_succ_cons]
      congr 1
      omega
    · rw [List.takeWhile_cons_of_neg hc']
      rfl

/-- Blanks, and comments up to the line feeds that end them. -/
inductive IsGap : List Char → Prop where
  | nil : IsGap []
  | blank {c : Char} {gap : List Char} (hc : Text.isBlank c = true) (h : IsGap gap) : IsGap (c :: gap)
  | comment {body gap : List Char} (hbody : ∀ c ∈ body, c ≠ '\n') (h : IsGap gap) :
      IsGap ('#' :: (body ++ '\n' :: gap))

theorem isGap_of_isBlank {gap : List Char} (h : ∀ c ∈ gap, Text.isBlank c = true) : IsGap gap := by
  induction gap with
  | nil => exact .nil
  | cons c gap ih => exact .blank (h c (by simp)) (ih fun c' hc' => h c' (by simp [hc']))

theorem IsGap.boundary_append {gap rest : List Char} (h : IsGap gap) (hrest : Boundary rest) :
    Boundary (gap ++ rest) := by
  cases h with
  | nil => exact hrest
  | blank hc =>
    exact boundary_cons (Bool.eq_false_iff.2 fun hname => not_isBlank_of_isNameChar hname hc)
  | comment => exact boundary_cons rfl

theorem scanFrom_gap {gap : List Char} (h : IsGap gap) (position : Nat) (rest : List Char) :
    scanFrom 0 position (gap ++ rest) = scanFrom 0 (position + gap.length) rest := by
  induction h generalizing position with
  | nil => rfl
  | blank hc _ ih =>
    rw [List.cons_append, scanFrom_blank position hc, ih, List.length_cons, Nat.add_assoc, Nat.add_comm 1]
  | @comment body gap hbody _ ih =>
    have htake : (body ++ '\n' :: (gap ++ rest)).takeWhile (· ≠ '\n') = body := by
      rw [List.takeWhile_append_of_pos fun c hc => decide_eq_true (hbody c hc)]
      simp
    have hlexeme : lexeme? ('#' :: (body ++ '\n' :: (gap ++ rest))) = some (none, body.length + 1) := by
      rw [lexeme?, if_neg (by decide), if_pos rfl, htake]
    rw [List.cons_append, List.append_assoc, List.cons_append, scanFrom_of_skipped position hlexeme,
      List.drop_succ_cons, List.drop_left, scanFrom_blank _ (by decide), ih]
    congr 1
    simp only [List.length_cons, List.length_append]
    omega

/-- At the position, and with nothing behind it that runs on from it, the text is scanned as the tokens. -/
def Scans (s : List Char) (position : Nat) (tokens : List Token) : Prop :=
  ∀ rest, Boundary rest →
    scanFrom 0 position (s ++ rest) = (scanFrom 0 (position + s.length) rest).map (tokens ++ ·)

namespace Scans

variable {s s' : List Char} {position : Nat} {tokens tokens' : List Token}

theorem nil : Scans [] position [] := by
  intro rest _
  show scanFrom 0 position rest = (scanFrom 0 position rest).map id
  cases scanFrom 0 position rest <;> rfl

theorem append (h : Scans s position tokens) (hs' : ∀ rest, Boundary rest → Boundary (s' ++ rest))
    (h' : Scans s' (position + s.length) tokens') : Scans (s ++ s') position (tokens ++ tokens') := by
  intro rest hrest
  rw [List.append_assoc, h _ (hs' rest hrest), h' rest hrest, List.length_append, Nat.add_assoc]
  cases scanFrom 0 (position + (s.length + s'.length)) rest <;> simp [Except.map]

theorem blank_cons (h : Scans s (position + 1) tokens) : Scans (' ' :: s) position tokens := by
  intro rest hrest
  rw [List.cons_append, scanFrom_blank position rfl, h rest hrest, List.length_cons, Nat.add_assoc,
    Nat.add_comm 1]

/-- Gaps before and behind a text do not matter to it. -/
theorem spaced {gap gap' : List Char} (hgap : IsGap gap) (hgap' : IsGap gap')
    (h : Scans s (position + gap.length) tokens) : Scans (gap ++ (s ++ gap')) position tokens := by
  intro rest hrest
  rw [List.append_assoc, scanFrom_gap hgap, List.append_assoc, h _ (hgap'.boundary_append hrest),
    scanFrom_gap hgap', List.length_append, List.length_append, Nat.add_assoc, Nat.add_assoc]

/-- A token stands before the text. -/
theorem token_append (kind : TokenKind) (lexeme : List Char)
    (hlexeme : ∀ rest, Boundary rest → lexeme? (lexeme ++ (s ++ rest)) = some (some kind, lexeme.length))
    (h : Scans s (position + lexeme.length) tokens) :
    ∃ token : Lexeme kind, token.1.text = lexeme ∧ Scans (lexeme ++ s) position (token.1 :: tokens) := by
  refine ⟨⟨{ kind, text := lexeme, position }, rfl⟩, rfl, ?_⟩
  intro rest hrest
  rw [List.append_assoc, scanFrom_of_token position (hlexeme rest hrest), List.drop_left, List.take_left,
    h rest hrest, List.length_append, Nat.add_assoc]
  cases scanFrom 0 (position + (lexeme.length + s.length)) rest <;> rfl

theorem token (kind : TokenKind) (lexeme : List Char)
    (hlexeme : ∀ rest, Boundary rest → lexeme? (lexeme ++ rest) = some (some kind, lexeme.length)) :
    ∃ token : Lexeme kind, token.1.text = lexeme ∧ Scans lexeme position [token.1] := by
  obtain ⟨token, htext, h⟩ := token_append kind lexeme hlexeme nil
  exact ⟨token, htext, by rwa [List.append_nil] at h⟩

theorem name (position : Nat) (hne : s ≠ []) (hname : ∀ c ∈ s, isNameChar c = true) :
    ∃ name : Lexeme .identifier, name.1.text = s ∧ Scans s position [name.1] := by
  obtain ⟨c, cs, rfl⟩ := List.exists_cons_of_ne_nil hne
  refine token .identifier _ fun rest hrest => ?_
  exact lexeme?_name (hname c (by simp)) (fun c' hc' => hname c' (by simp [hc'])) hrest

theorem variableName (position : Nat) {c : Char} {cs : List Char} (hstart : isNameStart c = true)
    (hname : ∀ c ∈ cs, isNameChar c = true) :
    ∃ v : Lexeme .variableName, v.1.text = '?' :: c :: cs ∧ Scans ('?' :: c :: cs) position [v.1] :=
  token .variableName _ fun _ hrest => lexeme?_variableName hstart hname hrest

end Scans

end ForwardChaining.Notation
