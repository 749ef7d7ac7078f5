/-!
The line being edited: its characters, a cursor between two of them, and a bound on their number.

An operation that cannot be done leaves the buffer as it is and says so in its result.
-/

set_option autoImplicit false

namespace LineShell

/-- The line being edited. The cursor counts the characters to its left. -/
structure EditBuffer where
  chars : List Char
  cursor : Nat
  maxLength : Nat
deriving DecidableEq, Repr

namespace EditBuffer

/-- The empty buffer with a bound on the number of characters. -/
def empty (maxLength : Nat) : EditBuffer := ⟨[], 0, maxLength⟩

/-- The number of characters. -/
def length (b : EditBuffer) : Nat := b.chars.length

/-- Whether there is no character. -/
def isEmpty (b : EditBuffer) : Bool := b.chars.isEmpty

/-- Whether no further character fits. -/
def isFull (b : EditBuffer) : Bool := decide (b.maxLength ≤ b.chars.length)

/-- The characters from the cursor to the end. -/
def suffix (b : EditBuffer) : List Char := b.chars.drop b.cursor

/-- The line as a string. -/
def line (b : EditBuffer) : String := String.ofList b.chars

/-! ## Operations -/

/-- Inserts a character at the cursor and steps over it; `none` if the buffer is full. -/
def insert? (b : EditBuffer) (c : Char) : Option EditBuffer :=
  if b.isFull then none
  else some { b with chars := b.chars.insertIdx b.cursor c, cursor := b.cursor + 1 }

/-- Deletes the character left of the cursor, if there is one. -/
def delete? (b : EditBuffer) : Option EditBuffer :=
  match b.cursor with
  | 0 => none
  | n + 1 => some { b with chars := b.chars.eraseIdx n, cursor := n }

/-- Moves the cursor to the left, if it is not at the start. -/
def left? (b : EditBuffer) : Option EditBuffer :=
  match b.cursor with
  | 0 => none
  | n + 1 => some { b with cursor := n }

/-- Moves the cursor to the right, if it is not at the end; also gives the character that it
stepped over. -/
def right? (b : EditBuffer) : Option (Char × EditBuffer) :=
  b.chars[b.cursor]?.map fun c => (c, { b with cursor := b.cursor + 1 })

/-- Puts a text in place of the line, as much of it as fits, with the cursor behind it. -/
def replace (b : EditBuffer) (text : List Char) : EditBuffer :=
  let chars := text.take b.maxLength
  { b with chars, cursor := chars.length }

/-- Empties the line. -/
def clear (b : EditBuffer) : EditBuffer := { b with chars := [], cursor := 0 }

end EditBuffer

end LineShell
