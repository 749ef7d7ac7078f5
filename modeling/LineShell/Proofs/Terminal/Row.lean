import LineShell.Editor
import Mathlib.Data.List.Induction
/-!
A terminal that has one row.

The row is a list of cells and a column; what is written is taken character by character. A carriage
return and a step back move the column, `ESC [ K` deletes from the column to the end, and every
other character fills one cell. A line feed and any other escape are outside of this picture and
leave the row alone.

Everything below is said of `Row.between left right`, the row with its column between two texts.
Seen that way no index is left: a character fills the first cell of `right` and goes over to
`left`, a step back takes the last character of `left` over to `right`.
-/

set_option autoImplicit false

namespace LineShell

/-- What a row has seen of an escape. -/
inductive Escape where
  | idle
  /-- `ESC`. -/
  | started
  /-- `ESC [`. -/
  | bracketed
deriving DecidableEq, Repr

/-- A terminal with one row. The column counts the cells to its left. -/
structure Row where
  cells : List Char
  column : Nat
  escape : Escape
deriving DecidableEq, Repr

namespace Row

/-- A row without cells. -/
def blank : Row := ⟨[], 0, .idle⟩

/-- Puts a character into the cell at the column and moves on. -/
def fill (row : Row) (c : Char) : Row :=
  { row with
    cells := row.cells.take row.column ++ c :: row.cells.drop (row.column + 1)
    column := row.column + 1 }

/-- **One character.** -/
def put (row : Row) (c : Char) : Row :=
  match row.escape with
  | .idle =>
    if c = '\x1b' then { row with escape := .started }
    else if c = '\r' then { row with column := 0 }
    else if c = '\x08' then { row with column := row.column - 1 }
    else if c = '\n' then row
    else row.fill c
  | .started => { row with escape := if c = '[' then .bracketed else .idle }
  | .bracketed =>
    let cells := if c = 'K' then row.cells.take row.column else row.cells
    { row with cells, escape := .idle }

/-- The row after a text. -/
def display (row : Row) (text : List Char) : Row := text.foldl put row

/-- The row after the bytes of an encoded text. -/
def displayBytes (row : Row) (bytes : Bytes) : Row := row.display (Utf8.decodeLossy bytes)

/-- The characters that do something else than fill a cell. -/
def controls : List Char := ['\x08', '\r', '\n', '\x1b']

/-- A text that fills one cell with each character. -/
def Plain (text : List Char) : Prop := ∀ c ∈ text, c ∉ controls

instance (text : List Char) : Decidable (Plain text) := List.decidableBAll (· ∉ controls) text

theorem Plain.append {s t : List Char} (hs : Plain s) (ht : Plain t) : Plain (s ++ t) := by
  intro c hc
  rcases List.mem_append.1 hc with h | h
  · exact hs c h
  · exact ht c h

theorem Plain.sublist {s t : List Char} (ht : Plain t) (h : s.Sublist t) : Plain s :=
  fun c hc => ht c (h.mem hc)

@[simp] theorem display_nil (row : Row) : row.display [] = row := rfl

theorem display_cons (row : Row) (c : Char) (text : List Char) :
    row.display (c :: text) = (row.put c).display text := rfl

theorem display_append (row : Row) (s t : List Char) :
    row.display (s ++ t) = (row.display s).display t :=
  List.foldl_append

/-! ## The column between two texts -/

/-- The row with its column between two texts. -/
def between (left right : List Char) : Row := ⟨left ++ right, left.length, .idle⟩

/-- A plain character fills the first cell on the right and is on the left then. -/
theorem put_between {c : Char} (h : c ∉ controls) (left right : List Char) :
    (Row.between left right).put c = Row.between (left ++ [c]) right.tail := by
  simp only [controls, List.mem_cons, List.not_mem_nil, or_false, not_or] at h
  obtain ⟨hback, hreturn, hfeed, hescape⟩ := h
  have htake : (left ++ right).take left.length = left := List.take_left
  have hdrop : (left ++ right).drop (left.length + 1) = right.tail := by
    rw [← List.drop_drop, List.drop_left, List.drop_one]
  rw [put, Row.between]
  dsimp only
  rw [if_neg hescape, if_neg hreturn, if_neg hback, if_neg hfeed, fill, htake, hdrop, Row.between,
    List.append_assoc, List.length_append, List.length_singleton, List.singleton_append]

/-- A plain text fills as many cells as it has characters. -/
theorem display_plain {text : List Char} (h : Plain text) (left right : List Char) :
    (Row.between left right).display text
      = Row.between (left ++ text) (right.drop text.length) := by
  induction text generalizing left right with
  | nil => rw [display_nil, List.append_nil, List.length_nil, List.drop_zero]
  | cons c text ih =>
    have hc := h c List.mem_cons_self
    have htext : Plain text := h.sublist (List.sublist_cons_self c text)
    rw [display_cons, put_between hc, ih htext, List.append_assoc, List.singleton_append,
      List.length_cons, ← List.drop_one, List.drop_drop, Nat.add_comm 1]

theorem put_stepBack (left : List Char) (c : Char) (right : List Char) :
    (Row.between (left ++ [c]) right).put '\x08' = Row.between left (c :: right) := by
  rw [put, Row.between, Row.between]
  dsimp only
  rw [if_neg (by decide), if_neg (by decide), if_pos rfl, List.length_append,
    List.length_singleton, Nat.add_sub_cancel, List.append_assoc, List.singleton_append]

/-- One step back for every character of a text leads to where the text starts. -/
theorem display_stepsBack (left text right : List Char) :
    (Row.between (left ++ text) right).display (List.replicate text.length '\x08')
      = Row.between left (text ++ right) := by
  -- The step back goes over the last character first.
  induction text using List.reverseRecOn generalizing right with
  | nil => rw [List.append_nil, List.length_nil, List.replicate_zero, display_nil, List.nil_append]
  | append_singleton text c ih =>
    rw [List.length_append, List.length_singleton, List.replicate_succ, display_cons,
      ← List.append_assoc, put_stepBack, ih, List.append_assoc, List.singleton_append]

theorem display_clearToEnd (left right : List Char) :
    (Row.between left right).display Echo.clearToEnd.toList = Row.between left [] := by
  have htake : (left ++ right).take left.length = left := List.take_left
  show Row.mk ((left ++ right).take left.length) left.length .idle = Row.between left []
  rw [htake, Row.between, List.append_nil]

theorem display_clearRow (left right : List Char) :
    (Row.between left right).display Echo.clearRow.toList = Row.between [] [] := by
  have hreturn : (Row.between left right).put '\r' = Row.between [] (left ++ right) := rfl
  rw [Echo.clearRow, String.toList_append, display_append, show "\r".toList = ['\r'] from rfl,
    display_cons, display_nil, hreturn, display_clearToEnd]

/-! ## What a cell can hold -/

/-- **No cell ever holds a control.** -/
theorem plain_cells_display {row : Row} (h : Plain row.cells) (text : List Char) :
    Plain (row.display text).cells := by
  induction text generalizing row with
  | nil => exact h
  | cons c text ih =>
    rw [display_cons]
    refine ih ?_
    have htake : Plain (row.cells.take row.column) := h.sublist (List.take_sublist _ _)
    unfold put
    split
    · split_ifs with hescape hreturn hback hfeed
      · exact h
      · exact h
      · exact h
      · exact h
      · -- The one character that enters a cell has passed all four tests.
        intro d hd
        rcases List.mem_append.1 hd with hd | hd
        · exact htake d hd
        rcases List.mem_cons.1 hd with rfl | hd
        · simp [controls, hescape, hreturn, hback, hfeed]
        · exact h d (List.mem_of_mem_drop hd)
    · exact h
    · dsimp only
      split_ifs
      · exact htake
      · exact h

end Row

end LineShell
