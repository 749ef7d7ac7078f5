import LineShell.Quote
import LineShell.Text.White
/-!
A line of input: where its comment starts, how it is finished, and which commands it holds.

Comment marks and separators count outside quotes only. Both scans carry the quote that is open
and nothing else, so what they do from some point on depends on the text before it through
`Quote.after` alone.
-/

set_option autoImplicit false

namespace LineShell

namespace Line

/-- What starts a comment. -/
def commentMark : Char := '#'

/-- What stands between two commands. -/
def separator : Char := ';'

/-! ## Comments -/

/-- The text before the first comment mark outside quotes. -/
def uncommented (opened : Option Quote) : List Char → List Char
  | [] => []
  | c :: rest =>
    if c = commentMark ∧ opened = none then []
    else c :: uncommented (Quote.next opened c) rest

/-- A finished line: trimmed, without its comment, and trimmed again. -/
def finished (text : List Char) : List Char :=
  Text.trim (uncommented none (Text.trim text))

/-! ## Commands -/

/-- The texts between the separators outside quotes; one more than there are separators. -/
def segments (opened : Option Quote) : List Char → List (List Char)
  | [] => [[]]
  | c :: rest =>
    if c = separator ∧ opened = none then [] :: segments none rest
    else (segments (Quote.next opened c) rest).modifyHead (c :: ·)

/-- A list of segments without the empty one that it may end with. -/
def dropEmptyEnd (texts : List (List Char)) : List (List Char) :=
  if texts.getLast? = some [] then texts.dropLast else texts

/-- The commands of a line: its segments, empty ones included, except that nothing stands after a
separator at the end and that a line of separators holds no command. -/
def commands (text : List Char) : List (List Char) :=
  let found := dropEmptyEnd (segments none text)
  if found.all List.isEmpty then [] else found

theorem segments_ne_nil (opened : Option Quote) (text : List Char) : segments opened text ≠ [] := by
  induction text generalizing opened with
  | nil => simp [segments]
  | cons c rest ih =>
    unfold segments
    split
    · simp
    · simpa [List.modifyHead_eq_nil_iff] using ih _

end Line

/-- The text of a line before its comment. -/
def stripComment (line : String) : String :=
  String.ofList (Line.uncommented none line.toList)

/-- A line as it is kept and run: without its comment and without white space around it. -/
def finishLine (line : String) : String := String.ofList (Line.finished line.toList)

/-- **The commands of a line,** in the order in which they run. -/
def commandsOf (line : String) : List String :=
  (Line.commands line.toList).map String.ofList

example : finishLine "  ls -la # all '# of them" = "ls -la" := by decide +kernel

example : commandsOf "a;;b 'c;d';" = ["a", "", "b 'c;d'"] := by decide +kernel

example : commandsOf ";;;" = [] := by decide +kernel

end LineShell
