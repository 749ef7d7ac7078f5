import LineShell.Text.Lines
import Mathlib.Tactic.Common
/-!
Lines of a text that grows at its end.

A line feed ends a line whatever follows, so behind a text that ends with one the lines of the rest
are counted on their own.
-/

set_option autoImplicit false

namespace LineShell.Text

theorem terminated_append (front : List (List Char)) {rest : List (List Char)} (h : rest ≠ []) :
    terminated (front ++ rest) = front.map dropReturn ++ terminated rest := by
  induction front with
  | nil => rfl
  | cons line front ih =>
    rw [List.cons_append, List.map_cons, List.cons_append, ← ih]
    -- What is left behind the line is not empty, so the line was terminated.
    cases hrest : front ++ rest with
    | nil => exact absurd (List.append_eq_nil_iff.1 hrest).2 h
    | cons next others =>
      rw [terminated]
      exact List.cons_ne_nil next others

theorem lines_feed_append (front rest : List Char) :
    lines (front ++ '\n' :: rest) = (front.splitOn '\n').map dropReturn ++ lines rest := by
  rw [lines, List.splitOn_append_cons_self, terminated_append _ (List.splitOn_ne_nil _ _), lines]

/-- A text that a line can be put behind: it is empty or ends with a line feed. -/
def Ended (text : List Char) : Prop := text = [] ∨ ∃ front, text = front ++ ['\n']

/-- Behind an ended text the lines of the rest are counted on their own. -/
theorem lines_append_of_ended {text : List Char} (h : Ended text) (rest : List Char) :
    lines (text ++ rest) = lines text ++ lines rest := by
  rcases h with rfl | ⟨front, rfl⟩
  · rfl
  · rw [List.append_assoc, List.singleton_append, lines_feed_append, lines_feed_append, lines_nil,
      List.append_nil]

/-- A line feed makes one line of a text that has none and does not end in a carriage return. -/
theorem lines_line_feed {line : List Char} (hfeed : '\n' ∉ line)
    (hreturn : line.getLast? ≠ some '\r') : lines (line ++ ['\n']) = [line] := by
  rw [lines_feed_append, List.splitOn_eq_singleton hfeed, lines_nil, List.append_nil,
    List.map_singleton, dropReturn, if_neg hreturn]

/-! ## What a line can hold -/

theorem dropReturn_sublist (line : List Char) : (dropReturn line).Sublist line := by
  unfold dropReturn
  split
  · exact List.dropLast_sublist line
  · exact List.Sublist.refl line

theorem exists_of_mem_terminated {texts : List (List Char)} {line : List Char}
    (h : line ∈ terminated texts) : ∃ text ∈ texts, line.Sublist text := by
  induction texts with
  | nil => cases h
  | cons text texts ih =>
    cases texts with
    | nil =>
      rw [terminated] at h
      split at h
      · cases h
      · rw [List.mem_singleton] at h
        exact ⟨text, List.mem_cons_self, h ▸ List.Sublist.refl line⟩
    | cons next texts =>
      rw [terminated] at h
      · rcases List.mem_cons.1 h with rfl | h
        · exact ⟨text, List.mem_cons_self, dropReturn_sublist text⟩
        · obtain ⟨found, hmem, hsub⟩ := ih h
          exact ⟨found, List.mem_cons_of_mem text hmem, hsub⟩
      · intro hnil
        cases hnil

/-- A text between separators holds none of them. -/
theorem not_mem_of_mem_splitOn {c : Char} {text piece : List Char} (h : piece ∈ text.splitOn c) :
    c ∉ piece := by
  induction text generalizing piece with
  | nil =>
    rw [List.splitOn_nil, List.mem_singleton] at h
    rw [h]
    exact List.not_mem_nil
  | cons d text ih =>
    rw [List.splitOn_cons_eq_if_modifyHead] at h
    split at h
    · rcases List.mem_cons.1 h with rfl | h
      · exact List.not_mem_nil
      · exact ih h
    · next hne =>
      obtain ⟨first, others, hpieces⟩ := List.exists_cons_of_ne_nil (List.splitOn_ne_nil c text)
      rw [hpieces, List.modifyHead_cons] at h
      rcases List.mem_cons.1 h with rfl | h
      · intro hc
        rcases List.mem_cons.1 hc with rfl | hc
        · exact hne (beq_self_eq_true c)
        · exact ih (hpieces ▸ List.mem_cons_self) hc
      · exact ih (hpieces ▸ List.mem_cons_of_mem first h)

/-- **No line holds a line feed.** -/
theorem feed_not_mem_of_mem_lines {text line : List Char} (h : line ∈ lines text) :
    '\n' ∉ line := by
  obtain ⟨found, hmem, hsub⟩ := exists_of_mem_terminated h
  exact fun hfeed => not_mem_of_mem_splitOn hmem (hsub.mem hfeed)

end LineShell.Text
