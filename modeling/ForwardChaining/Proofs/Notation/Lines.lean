import ForwardChaining.Notation.Program
import ForwardChaining.Text.Utf8

/-!
# Programs line by line

A program is read if each of its lines is, and then it states what its lines state, in order
(`parseProgram_of_isReadable`).  One line that cannot be read makes the whole program unreadable, wherever it
stands (`parseProgram_of_not_isReadable`).
-/

namespace ForwardChaining

namespace Text

theorem lines_unifyLineEnds (cs : List Char) : lines (unifyLineEnds cs) = lines cs := by
  induction cs using unifyLineEnds.induct with
  | case1 => rfl
  | case2 rest ih =>
    rw [unifyLineEnds, lines, ← ih]
    rfl
  | case3 rest hnot ih =>
    have hlines : lines ('\r' :: rest) = [] :: lines rest := lines.eq_3 _ _ fun more _ hrest => hnot more hrest
    rw [unifyLineEnds, hlines, ← ih]
    · rfl
    · exact hnot
  | case4 c rest hfirst hsecond ih =>
    have hne : ∀ behind more, c = '\r' → behind = '\n' :: more → False := fun _ _ hcr _ => hsecond hcr
    rw [unifyLineEnds, lines.eq_3 _ _ (hne _), lines.eq_3 _ _ (hne _), ih]
    · exact hfirst
    · exact hsecond

end Text

namespace Notation

/-- The line can be read, as a statement or as one that states nothing. -/
def IsReadable (line : List Char) : Prop := ∃ s, readLine line = .ok s

/-- What a line states, if it can be read and states something. -/
def statement? (line : List Char) : Option Statement :=
  match readLine line with
  | .ok s => s
  | .error _ => none

variable {line : List Char} {lines : List (List Char)} {text : String}

theorem statement?_of_eq_ok {s : Option Statement} (h : readLine line = .ok s) : statement? line = s := by
  rw [statement?, h]

theorem readLines_of_isReadable (h : ∀ line ∈ lines, IsReadable line) (number : Nat) :
    readLines number lines = .ok (lines.filterMap statement?) := by
  induction lines generalizing number with
  | nil => rfl
  | cons line lines ih =>
    obtain ⟨s, hs⟩ := h line (by simp)
    have hrest := ih (fun l hl => h l (List.mem_cons_of_mem _ hl)) (number + 1)
    rw [readLines, hs, hrest]
    cases s with
    | none => rw [List.filterMap_cons_none (statement?_of_eq_ok hs)]
    | some statement =>
      rw [List.filterMap_cons_some (statement?_of_eq_ok hs)]
      rfl

theorem exists_readLines_eq_error (hmem : line ∈ lines) (h : ¬ IsReadable line) (number : Nat) :
    ∃ e, readLines number lines = .error e := by
  induction lines generalizing number with
  | nil => exact absurd hmem List.not_mem_nil
  | cons first lines ih =>
    rw [readLines]
    cases hfirst : readLine first with
    | error error => exact ⟨_, rfl⟩
    | ok s =>
      have hrest : line ∈ lines := by
        rcases List.mem_cons.mp hmem with rfl | hrest
        · exact absurd ⟨s, hfirst⟩ h
        · exact hrest
      obtain ⟨e, he⟩ := ih hrest (number + 1)
      rw [he]
      cases s with
      | none => exact ⟨e, rfl⟩
      | some statement => exact ⟨e, rfl⟩

/-- **A program whose lines can all be read states what they state.** -/
theorem parseProgram_of_isReadable (h : ∀ line ∈ Text.lines text.toList, IsReadable line) :
    parseProgram text = .ok (.ofStatements ((Text.lines text.toList).filterMap statement?)) := by
  rw [parseProgram, readLines_of_isReadable h]
  rfl

/-- **One line that cannot be read makes a program unreadable.** -/
theorem parseProgram_of_not_isReadable (hmem : line ∈ Text.lines text.toList) (h : ¬ IsReadable line) :
    ∃ e, parseProgram text = .error e := by
  obtain ⟨e, he⟩ := exists_readLines_eq_error hmem h 1
  refine ⟨e, ?_⟩
  rw [parseProgram, he]
  rfl

def statementsOf (text : String) : List Statement := (Text.lines text.toList).filterMap statement?

theorem mem_facts_ofStatements {ss : List Statement} {a : Atom} :
    a ∈ (Program.ofStatements ss).facts ↔ .fact a ∈ ss := by
  refine List.mem_filterMap.trans ⟨?_, fun h => ⟨_, h, rfl⟩⟩
  rintro ⟨s, hs, ha⟩
  cases s with
  | fact b => exact Option.some.inj ha ▸ hs
  | rule r => cases ha

theorem mem_rules_ofStatements {ss : List Statement} {r : Rule} :
    r ∈ (Program.ofStatements ss).rules ↔ .rule r ∈ ss := by
  refine List.mem_filterMap.trans ⟨?_, fun h => ⟨_, h, rfl⟩⟩
  rintro ⟨s, hs, hr⟩
  cases s with
  | fact a => cases hr
  | rule q => exact Option.some.inj hr ▸ hs

/-- **A program is read if and only if its lines are.** -/
theorem parseProgram_eq_ok_iff {p : Program} : parseProgram text = .ok p ↔
    (∀ line ∈ Text.lines text.toList, IsReadable line) ∧ p = .ofStatements (statementsOf text) := by
  by_cases h : ∀ line ∈ Text.lines text.toList, IsReadable line
  · rw [parseProgram_of_isReadable h, Except.ok.injEq, eq_comm]
    exact (and_iff_right h).symm
  · refine ⟨fun hp => ?_, fun hp => absurd hp.1 h⟩
    obtain ⟨line, hline, hnot⟩ : ∃ line ∈ Text.lines text.toList, ¬ IsReadable line := by simpa using h
    obtain ⟨e, he⟩ := parseProgram_of_not_isReadable hline hnot
    rw [he] at hp
    cases hp

end Notation

end ForwardChaining
