/-!
The lines of a text.

A line ends at a line feed, or at a carriage return with a line feed after it; neither belongs to
the line. What follows the last line feed is a line too unless it is empty, and there a carriage
return at the end stays, as no line feed follows it.
-/

set_option autoImplicit false

namespace LineShell.Text

/-- A terminated line without the carriage return before its line feed. -/
def dropReturn (line : List Char) : List Char :=
  if line.getLast? = some '\r' then line.dropLast else line

/-- Turns the texts between line feeds into lines: all but the last were terminated. -/
def terminated : List (List Char) → List (List Char)
  | [] => []
  | [last] => if last.isEmpty then [] else [last]
  | line :: rest => dropReturn line :: terminated rest

/-- The lines of a text, in order, without what ends them. -/
def lines (text : List Char) : List (List Char) := terminated (text.splitOn '\n')

@[simp] theorem lines_nil : lines [] = [] := rfl

example : lines "a\r\nb\n\nc\r".toList = ["a".toList, "b".toList, [], "c\r".toList] := by decide

end LineShell.Text
