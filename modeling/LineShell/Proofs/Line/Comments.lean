import LineShell.Proofs.Line.Finished
import LineShell.Proofs.Line.Written
/-!
Finished lines and their comments.

Finishing a line trims it before its comment is looked for and once more behind it. The first
trimming changes the text that is scanned, but only by white space, and white space opens no quote
and starts no comment; so at the end of the line it can be left to the second trimming
(`Line.finished_eq`). From there it is one scan, which stops at the first comment mark outside
quotes and does not see what stands behind it (`Line.finished_append_mark`).
-/

set_option autoImplicit false

namespace LineShell

namespace Line

variable {opened : Option Quote} {s : List Char}

/-! ## What the scan for a comment sees -/

/-- **A mark outside quotes** hides all that stands behind it, and so does one in front of it. -/
theorem uncommented_append_mark (hclosed : Quote.after opened s = none) (comment : List Char) :
    uncommented opened (s ++ commentMark :: comment) = uncommented opened s := by
  induction s generalizing opened with
  | nil => exact if_pos ⟨rfl, hclosed⟩
  | cons c s ih =>
    rw [Quote.after_cons] at hclosed
    rw [List.cons_append, uncommented, uncommented, ih hclosed]

/-- White space behind a text is left, or it is part of the comment. -/
theorem exists_uncommented_append_white {back : List Char} (hback : Text.White back)
    (opened : Option Quote) (s : List Char) :
    ∃ rest, Text.White rest ∧ uncommented opened (s ++ back) = uncommented opened s ++ rest := by
  induction s generalizing opened with
  | nil =>
    refine ⟨uncommented opened back, fun c hc => ?_, rfl⟩
    exact hback c ((uncommented_isPrefix opened back).subset hc)
  | cons c s ih =>
    rw [List.cons_append, uncommented, uncommented]
    by_cases hmark : c = commentMark ∧ opened = none
    · rw [if_pos hmark, if_pos hmark]
      exact ⟨[], Text.white_nil, rfl⟩
    · rw [if_neg hmark, if_neg hmark]
      obtain ⟨rest, hrest, heq⟩ := ih (Quote.next opened c)
      exact ⟨rest, hrest, by rw [heq, List.cons_append]⟩

/-! ## Finishing -/

/-- **White space at the end is trimmed but once,** when the comment is gone. -/
theorem finished_eq (text : List Char) :
    finished text = Text.trim (uncommented none (Text.trimStart text)) := by
  obtain ⟨back, hback, hsplit⟩ := Text.exists_trimEnd_append (Text.trimStart text)
  obtain ⟨rest, hrest, hscan⟩ := exists_uncommented_append_white hback none (Text.trim text)
  have htext : Text.trim text ++ back = Text.trimStart text := hsplit
  rw [htext] at hscan
  rw [hscan, Text.trim_append_white hrest, finished]

/-- White space at the start opens no quote. -/
theorem after_trimStart (text : List Char) :
    Quote.after none (Text.trimStart text) = Quote.after none text := by
  obtain ⟨front, hfront, hsplit⟩ := Text.exists_append_trimStart text
  have hclosed : Quote.after none front = none :=
    (Written.quiet_of_white hfront (.inr rfl)).closed
  have happend := Quote.after_append none front (Text.trimStart text)
  rw [hsplit, hclosed] at happend
  exact happend.symm

/-- **A comment changes nothing** if it starts outside quotes. -/
theorem finished_append_mark (hclosed : Quote.after none s = none) (comment : List Char) :
    finished (s ++ commentMark :: comment) = finished s := by
  have hstart : Text.trimStart (s ++ commentMark :: comment)
      = Text.trimStart s ++ commentMark :: comment :=
    Text.trimStart_append_cons s comment (by decide)
  have hopen : Quote.after none (Text.trimStart s) = none := by
    rw [after_trimStart, hclosed]
  rw [finished_eq, finished_eq, hstart, uncommented_append_mark hopen]

/-- Nothing is put into a line. -/
theorem finished_isInfix (text : List Char) : finished text <:+: text :=
  ((finished_isPrefix text).trans (uncommented_isPrefix none (Text.trim text))).isInfix.trans
    (Text.trim_infix text)

end Line

/-- **A finished line is finished, and does not tell its comment.** It is a piece of the line, with
no white space around it and no comment mark outside quotes; finished again it stays as it is. A
comment behind a line that has no quote open is not seen at all. -/
theorem finishLine_blind_to_comments (raw : String) :
    finishLine (finishLine raw) = finishLine raw ∧
    (∃ front back, raw = front ++ finishLine raw ++ back) ∧
    Text.Trimmed (finishLine raw).toList ∧
    Line.Free Line.commentMark none (finishLine raw).toList ∧
    (Quote.after none raw.toList = none →
      ∀ comment, finishLine (raw ++ "#" ++ comment) = finishLine raw) := by
  have hlist : (finishLine raw).toList = Line.finished raw.toList := String.toList_ofList
  refine ⟨finishLine_finishLine raw, ?_, ?_, ?_, fun hclosed comment => ?_⟩
  · obtain ⟨front, back, hpiece⟩ := Line.finished_isInfix raw.toList
    refine ⟨String.ofList front, String.ofList back, ?_⟩
    rw [← String.toList_inj, String.toList_append, String.toList_append, hlist,
      String.toList_ofList, String.toList_ofList, hpiece]
  · rw [hlist]
    exact Line.trimmed_finished raw.toList
  · rw [hlist]
    exact Line.free_finished raw.toList
  · have hmark : (raw ++ "#" ++ comment).toList
        = raw.toList ++ Line.commentMark :: comment.toList := by
      rw [String.toList_append, String.toList_append, List.append_assoc]
      rfl
    rw [finishLine, finishLine, hmark, Line.finished_append_mark hclosed]

/-- A quote that is left open hides the mark behind it. -/
example : finishLine " it's # so " = "it's # so" ∧
    finishLine " \"it's\" # so " = "\"it's\"" := by decide +kernel

end LineShell
