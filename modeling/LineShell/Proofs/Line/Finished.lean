import LineShell.Proofs.Line.Scanning
/-!
Finished lines are finished.

Finishing a line cuts off white space and the comment. What is left has no white space around it and
no comment mark outside quotes, and a text of that kind is left alone (`Line.finished_eq_self`), so
a line is finished once and for all (`finishLine_finishLine`). A quote that is never closed does no
harm: it hides the same marks the second time, as what is left is the front of what was there.
-/

set_option autoImplicit false

namespace LineShell

namespace Line

variable {mark : Char} {opened : Option Quote} {s t : List Char}

/-! ## Comments -/

theorem Free.of_isPrefix (hfree : Free mark opened t) (hfront : s <+: t) : Free mark opened s := by
  obtain ⟨rest, rfl⟩ := hfront
  exact (free_append.1 hfree).1

/-- Of a text without a comment all is left. -/
theorem uncommented_of_free (hfree : Free commentMark opened s) : uncommented opened s = s := by
  have happend := uncommented_append hfree []
  rw [List.append_nil] at happend
  rw [happend, uncommented, List.append_nil]

theorem free_uncommented (opened : Option Quote) (text : List Char) :
    Free commentMark opened (uncommented opened text) := by
  induction text generalizing opened with
  | nil => exact trivial
  | cons c text ih =>
    rw [uncommented]
    by_cases hmark : c = commentMark ∧ opened = none
    · rw [if_pos hmark]
      exact trivial
    · rw [if_neg hmark]
      exact ⟨hmark, ih _⟩

theorem uncommented_isPrefix (opened : Option Quote) (text : List Char) :
    uncommented opened text <+: text := by
  induction text generalizing opened with
  | nil => exact List.prefix_rfl
  | cons c text ih =>
    rw [uncommented]
    by_cases hmark : c = commentMark ∧ opened = none
    · rw [if_pos hmark]
      exact List.nil_prefix
    · rw [if_neg hmark]
      exact (List.prefix_cons_inj c).2 (ih _)

/-! ## Finishing -/

/-- **A text is left alone** that has nothing to be cut off. -/
theorem finished_eq_self (htrimmed : Text.Trimmed s) (hfree : Free commentMark none s) :
    finished s = s := by
  rw [finished, Text.trim_of_trimmed htrimmed, uncommented_of_free hfree,
    Text.trim_of_trimmed htrimmed]

/-- Finishing cuts off at the end only, once the text does not begin with white space. -/
theorem finished_isPrefix (text : List Char) :
    finished text <+: uncommented none (Text.trim text) := by
  have hfirst : ∀ c, (uncommented none (Text.trim text)).head? = some c →
      Text.isWhite c = false := by
    intro c hc
    obtain ⟨rest, hrest⟩ := uncommented_isPrefix none (Text.trim text)
    refine (Text.trimmed_trim text).first c ?_
    rw [← hrest, List.head?_append, hc]
    rfl
  rw [finished, Text.trim, Text.trimStart_of_first hfirst]
  exact Text.trimEnd_prefix _

theorem trimmed_finished (text : List Char) : Text.Trimmed (finished text) := Text.trimmed_trim _

theorem free_finished (text : List Char) : Free commentMark none (finished text) :=
  (free_uncommented none (Text.trim text)).of_isPrefix (finished_isPrefix text)

end Line

/-- **A finished line is finished.** -/
theorem finishLine_finishLine (line : String) : finishLine (finishLine line) = finishLine line := by
  have hlist : (finishLine line).toList = Line.finished line.toList := String.toList_ofList
  rw [finishLine, hlist, Line.finished_eq_self (Line.trimmed_finished _) (Line.free_finished _)]
  rfl

end LineShell
