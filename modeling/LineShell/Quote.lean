/-!
Quotes, and which of them is open.

There are two kinds, and each is closed by itself only: inside one kind the other is an ordinary
character. Reading a text from left to right therefore needs one piece of state, the quote that is
open, if any.
-/

set_option autoImplicit false

namespace LineShell

/-- The two kinds of quote. -/
inductive Quote where
  | single
  | double
deriving DecidableEq, Repr

namespace Quote

/-- The character of a quote. -/
def char : Quote → Char
  | .single => '\''
  | .double => '"'

/-- The quote that a character is, if it is one. -/
def ofChar? (c : Char) : Option Quote :=
  if c = '\'' then some .single
  else if c = '"' then some .double
  else none

@[simp] theorem ofChar?_char (q : Quote) : ofChar? q.char = some q := by
  cases q <;> rfl

theorem ofChar?_eq_some_iff {c : Char} {q : Quote} : ofChar? c = some q ↔ c = q.char := by
  cases q <;> grind [ofChar?, char]

/-- **One character.** The quote that is open after it: a quote opens if none is open, closes
itself, and changes nothing inside the other kind. -/
def next (opened : Option Quote) (c : Char) : Option Quote :=
  match ofChar? c, opened with
  | none, _ => opened
  | some q, none => some q
  | some q, some o => if q = o then none else some o

/-- The quote that is open after a text, given the one that was open before it. -/
def after (opened : Option Quote) (text : List Char) : Option Quote := text.foldl next opened

@[simp] theorem after_nil (opened : Option Quote) : after opened [] = opened := rfl

@[simp] theorem after_cons (opened : Option Quote) (c : Char) (text : List Char) :
    after opened (c :: text) = after (next opened c) text := rfl

theorem after_append (opened : Option Quote) (s t : List Char) :
    after opened (s ++ t) = after (after opened s) t := by
  simp [after]

end Quote

end LineShell
