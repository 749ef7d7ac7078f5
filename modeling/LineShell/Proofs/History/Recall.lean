import LineShell.Editor
import Mathlib.Tactic.Common
/-!
Recalling lines: it leads to lines of the history only, and changes nothing of it but the position.
-/

set_option autoImplicit false

namespace LineShell

namespace History

/-- A line that is recalled is one of the lines, or no text at all. -/
theorem recalledLine_eq (h : History) : h.recalledLine = "" ∨ h.recalledLine ∈ h.entries := by
  unfold recalledLine
  cases h.recalled with
  | none => exact .inl rfl
  | some n =>
    dsimp only
    cases hget : h.entries[h.entries.length - 1 - n]? with
    | none => exact .inl rfl
    | some line => exact .inr (List.mem_of_getElem? hget)

/-- What holds of the lines, and of no text, holds of what is recalled. -/
theorem revisit_line (Holds : String → Prop) {h : History} (hempty : Holds "")
    (hentries : ∀ line ∈ h.entries, Holds line) (direction : Recall) :
    Holds (h.revisit direction).1 := by
  rcases recalledLine_eq (h.revisit direction).2 with hline | hline
  · rw [show (h.revisit direction).1 = (h.revisit direction).2.recalledLine from rfl, hline]
    exact hempty
  · exact hentries _ hline

end History

namespace Editor

/-- **A key changes nothing of the history but the position of the recall.** -/
theorem history_stroke (prompt : String) (key : Key) (b : EditBuffer) (h : History) :
    ∃ recalled, (stroke prompt key b h).history = { h with recalled } := by
  cases key with
  | char c =>
    refine ⟨h.recalled, ?_⟩
    unfold stroke
    dsimp only
    cases b.insert? c <;> rfl
  | backspace =>
    refine ⟨h.recalled, ?_⟩
    unfold stroke
    dsimp only
    cases b.delete? <;> rfl
  | left =>
    refine ⟨h.recalled, ?_⟩
    unfold stroke
    dsimp only
    cases b.left? <;> rfl
  | right =>
    refine ⟨h.recalled, ?_⟩
    unfold stroke
    dsimp only
    cases b.right? <;> rfl
  | enter => exact ⟨h.recalled, rfl⟩
  | up => exact ⟨h.step .older, rfl⟩
  | down => exact ⟨h.step .newer, rfl⟩
  | endOfInput => exact ⟨h.recalled, rfl⟩

end Editor

end LineShell
