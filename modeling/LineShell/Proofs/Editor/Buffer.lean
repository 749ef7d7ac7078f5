import LineShell.EditBuffer
import Mathlib.Data.List.Induction
/-!
The edit buffer as two texts.

Between operations a buffer is the text left of its cursor and the text right of it:
`EditBuffer.between left right`. Seen that way an operation moves, adds or drops one character at
the place where the two texts meet, and no index is left.
-/

set_option autoImplicit false

namespace LineShell

theorem insertIdx_length_append (left right : List Char) (c : Char) :
    (left ++ right).insertIdx left.length c = left ++ c :: right := by
  induction left with
  | nil => rfl
  | cons d left ih =>
    rw [List.length_cons, List.cons_append, List.insertIdx_succ_cons, ih, List.cons_append]

namespace EditBuffer

/-- The buffer with its cursor between two texts. -/
def between (left right : List Char) (maxLength : Nat) : EditBuffer :=
  ⟨left ++ right, left.length, maxLength⟩

variable (left right : List Char) (maxLength : Nat)

@[simp] theorem chars_between : (between left right maxLength).chars = left ++ right := rfl

@[simp] theorem cursor_between : (between left right maxLength).cursor = left.length := rfl

@[simp] theorem maxLength_between : (between left right maxLength).maxLength = maxLength := rfl

@[simp] theorem suffix_between : (between left right maxLength).suffix = right := by
  rw [suffix, chars_between, cursor_between, List.drop_left]

theorem empty_eq_between : empty maxLength = between [] [] maxLength := rfl

theorem isFull_between :
    (between left right maxLength).isFull = decide (maxLength ≤ left.length + right.length) := by
  rw [isFull, chars_between, maxLength_between, List.length_append]

/-- An inserted character is the last one on the left. -/
theorem insert?_between (c : Char) : (between left right maxLength).insert? c =
    if maxLength ≤ left.length + right.length then none
    else some (between (left ++ [c]) right maxLength) := by
  rw [insert?, isFull_between]
  by_cases h : maxLength ≤ left.length + right.length
  · rw [decide_eq_true h, if_pos rfl, if_pos h]
  · rw [decide_eq_false h, if_neg Bool.false_ne_true, if_neg h, chars_between, cursor_between,
      insertIdx_length_append, between, between, List.append_assoc, List.length_append,
      List.length_singleton, List.singleton_append]

/-- Deleting drops the last character on the left. -/
theorem delete?_between (c : Char) :
    (between (left ++ [c]) right maxLength).delete? = some (between left right maxLength) := by
  have herase : (left ++ [c] ++ right).eraseIdx left.length = left ++ right := by
    rw [List.append_assoc, List.eraseIdx_append_of_length_le (Nat.le_refl _), Nat.sub_self]
    rfl
  rw [delete?, cursor_between, List.length_append, List.length_singleton]
  dsimp only
  rw [chars_between, herase]
  rfl

/-- A step to the left takes the last character on the left over to the right. -/
theorem left?_between (c : Char) : (between (left ++ [c]) right maxLength).left?
    = some (between left (c :: right) maxLength) := by
  rw [left?, cursor_between, List.length_append, List.length_singleton]
  dsimp only
  rw [between, between, List.append_assoc, List.singleton_append]

theorem right?_between_nil : (between left [] maxLength).right? = none := by
  rw [right?, chars_between, cursor_between, List.append_nil,
    List.getElem?_eq_none (Nat.le_refl _), Option.map_none]

/-- A step to the right takes the first character on the right over to the left. -/
theorem right?_between (c : Char) : (between left (c :: right) maxLength).right?
    = some (c, between (left ++ [c]) right maxLength) := by
  have hget : (left ++ c :: right)[left.length]? = some c := by
    rw [List.getElem?_append_right (Nat.le_refl _), Nat.sub_self]
    rfl
  rw [right?, chars_between, cursor_between, hget, Option.map_some, between, between,
    List.append_assoc, List.length_append, List.length_singleton, List.singleton_append]

/-- A text in place of the line has the cursor behind it. -/
theorem replace_between (text : List Char) : (between left right maxLength).replace text
    = between (text.take maxLength) [] maxLength := by
  rw [replace, between, between, List.append_nil]

end EditBuffer

end LineShell
