import ForwardChaining.CommandLine.Run
import ForwardChaining.Proofs.Saturation.Order
import ForwardChaining.Proofs.Written

/-!
# What a report depends on

A report lists the final facts between a line that counts them and a line on how the inference ended.  Where
everything is written, each of these is one line of the printed text (`isInline_of_mem_report`, `lines_printed`).

The lines of the facts are sorted (`factLines_ordered`), and of written facts no two that differ are equal.  So it does
not matter in which order an engine has come to know its facts and rules: `report_congr`.
-/

namespace ForwardChaining

namespace CommandLine

variable {i : Inference} {e e' : Engine} {ls : List String}

/-! ### Lines -/

/-- The text that lines are printed as. -/
def printed : List String → String
  | [] => ""
  | line :: rest => line ++ "\n" ++ printed rest

/-- **Lines without line ends are the lines of what is printed.** -/
theorem lines_printed (h : ∀ line ∈ ls, IsInline line) :
    Text.lines (printed ls).toList = ls.map String.toList := by
  induction ls with
  | nil => rfl
  | cons line rest ih =>
    obtain ⟨hline, hrest⟩ := List.forall_mem_cons.mp h
    have htext : (printed (line :: rest)).toList = line.toList ++ '\n' :: (printed rest).toList := by
      rw [printed, String.toList_append, String.toList_append, List.append_assoc]
      rfl
    rw [htext, Text.lines_append hline, ih hrest, List.map_cons]

theorem isInline_toString (n : Nat) : IsInline (toString n) := by
  rw [Nat.toString_eq_ofList_toDigits]
  refine Notation.isInline_ofList fun c hc => not_isLineEnd_of_isNameChar ?_
  have hdigit := Nat.isDigit_of_mem_toDigits (by decide) (by decide) hc
  rw [Notation.isNameChar, Char.isAlphanum, hdigit, Bool.or_true, Bool.true_or]

def headline (i : Inference) : String := "--- Final Inferred Facts (" ++ toString i.facts.length ++ ") ---"

def factLines (i : Inference) : List String := (sorted (i.facts.map Atom.display)).map fun line => "- " ++ line

def statusLine (i : Inference) : String :=
  "Status: " ++ i.status.word ++ " after " ++ toString i.iterations ++ " iteration(s), "
    ++ toString i.derived.length ++ " derived"

theorem report_eq (i : Inference) : report i = headline i :: factLines i ++ [statusLine i] := rfl

theorem factLines_perm (i : Inference) : (factLines i).Perm (i.facts.map fun a => "- " ++ a.display) := by
  have hmap : (i.facts.map fun a => "- " ++ a.display) = (i.facts.map Atom.display).map ("- " ++ ·) :=
    (List.map_map ..).symm
  rw [hmap]
  exact (sortBy_perm id _).map _

/-- **The lines of the facts ascend.** -/
theorem factLines_ordered (i : Inference) : (factLines i).Pairwise (· ≤ ·) := by
  refine List.pairwise_map.mpr ((sortBy_pairwise id _).imp fun {s t} hst => ?_)
  have hlist : s.toList ≤ t.toList := String.le_iff_toList_le.mp hst
  rw [String.le_iff_toList_le, String.toList_append, String.toList_append]
  show '-' :: ' ' :: s.toList ≤ '-' :: ' ' :: t.toList
  exact List.cons_le_cons _ (List.cons_le_cons _ hlist)

theorem isInline_of_mem_report (h : ∀ a ∈ i.facts, a.IsWritten) : ∀ line ∈ report i, IsInline line := by
  intro line hline
  rw [report_eq, List.mem_append, List.mem_cons, List.mem_singleton] at hline
  rcases hline with (rfl | hline) | rfl
  · exact isInline_append (isInline_append (by decide) (isInline_toString _)) (by decide)
  · obtain ⟨a, ha, rfl⟩ := List.mem_map.mp ((factLines_perm i).mem_iff.mp hline)
    exact isInline_append (by decide) (h a ha).isInline
  · have hword : IsInline i.status.word := by cases i.status <;> decide
    have hstatus := isInline_append (isInline_append (by decide : IsInline "Status: ") hword)
      (by decide : IsInline " after ")
    have hpasses := isInline_append (isInline_append hstatus (isInline_toString i.iterations))
      (by decide : IsInline " iteration(s), ")
    exact isInline_append (isInline_append hpasses (isInline_toString i.derived.length)) (by decide)

/-! ### Order -/

/-- **It does not matter in which order written facts and rules have come to be known.** -/
theorem report_congr (he : e.IsWritten) (he' : e'.IsWritten) (hcap : e.cap = e'.cap)
    (hfacts : e.facts.roster ≈ e'.facts.roster) (hrules : e.rules ≈ e'.rules) :
    report e.infer = report e'.infer ∧ e.infer.status = e'.infer.status := by
  have hrun' := (infer_saturates e').mayRun
  rw [← hcap] at hrun'
  obtain ⟨hknown, hstatus, hpasses⟩ := (infer_saturates e).mayRun.agrees (sameRules_of_equiv hrules)
    e.facts.ground e'.facts.ground hfacts hrun'
  have hperm : e.infer.facts.Perm e'.infer.facts :=
    Roster.perm_of_equiv hknown (fun a ha b hab => (he.infer a ha).eq_of_equiv hab)
      fun a ha b hab => (he'.infer a ha).eq_of_equiv hab
  have hlines : factLines e.infer = factLines e'.infer := by
    refine List.Perm.eq_of_pairwise (fun _ _ _ _ => le_antisymm) (factLines_ordered _) (factLines_ordered _) ?_
    exact (factLines_perm _).trans ((hperm.map _).trans (factLines_perm _).symm)
  have hderived : e.infer.derived.length = e'.infer.derived.length := by
    have hold : ∀ a, e.facts.roster.contains a = e'.facts.roster.contains a := hfacts
    refine List.Perm.length_eq ((hperm.filter _).trans (List.Perm.of_eq ?_))
    exact List.filter_congr fun a _ => congrArg _ (hold a)
  have hheadline : headline e.infer = headline e'.infer :=
    congrArg (fun n => "--- Final Inferred Facts (" ++ toString n ++ ") ---") hperm.length_eq
  have hstatusLine : statusLine e.infer = statusLine e'.infer := by
    have hiterations : e.infer.iterations = e'.infer.iterations := hpasses.length_eq
    have hword : e.infer.status = e'.infer.status := hstatus
    rw [statusLine, statusLine, hword, hiterations, hderived]
  exact ⟨by rw [report_eq, report_eq, hheadline, hlines, hstatusLine], hstatus⟩

end CommandLine

end ForwardChaining
