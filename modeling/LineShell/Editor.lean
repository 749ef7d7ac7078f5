import LineShell.EditBuffer
import LineShell.History
import LineShell.Key
import LineShell.Line
/-!
Reading one line: keys change an edit buffer, and each change is echoed at once.

The echo keeps a terminal row in step with the buffer. It writes the least that does so: a typed
character and what follows the cursor, then one step back for every character of it; a deletion
clears to the end of the row; a recalled line clears the whole row.
-/

set_option autoImplicit false

namespace LineShell

namespace Echo

/-- Moves the terminal's cursor one column to the left. -/
def stepBack : String := "\x08"

/-- Deletes from the terminal's cursor to the end of the row. -/
def clearToEnd : String := "\x1b[K"

/-- Goes to the start of the row and deletes all of it. -/
def clearRow : String := "\r" ++ clearToEnd

/-- The text behind the cursor, and the way back over it. -/
def tail (b : EditBuffer) : String :=
  String.ofList b.suffix ++ String.join (b.suffix.map fun _ => stepBack)

end Echo

namespace Editor

/-- What a key does: the line and the history after it, and what is echoed, if anything. -/
structure Stroke where
  buffer : EditBuffer
  history : History
  echo : Option String
deriving DecidableEq, Repr

/-- Recalls a line into the buffer. -/
def recalled (prompt : String) (direction : Recall) (b : EditBuffer) (h : History) : Stroke :=
  let (line, h) := h.revisit direction
  let b := b.replace line.toList
  -- The buffer may hold less than the line, so the buffer is what is shown.
  ⟨b, h, some (Echo.clearRow ++ prompt ++ b.line)⟩

/-- **One key.** A key that cannot do what it is for does nothing and is not echoed. -/
def stroke (prompt : String) (key : Key) (b : EditBuffer) (h : History) : Stroke :=
  match key with
  | .char c =>
    match b.insert? c with
    | none => ⟨b, h, none⟩
    | some b => ⟨b, h, some (c.toString ++ Echo.tail b)⟩
  | .backspace =>
    match b.delete? with
    | none => ⟨b, h, none⟩
    | some b => ⟨b, h, some (Echo.stepBack ++ Echo.clearToEnd ++ Echo.tail b)⟩
  | .up => recalled prompt .older b h
  | .down => recalled prompt .newer b h
  | .left =>
    match b.left? with
    | none => ⟨b, h, none⟩
    | some b => ⟨b, h, some Echo.stepBack⟩
  | .right =>
    match b.right? with
    | none => ⟨b, h, none⟩
    | some (c, b) => ⟨b, h, some c.toString⟩
  | .enter => ⟨b, h, some "\n"⟩
  | .endOfInput => ⟨b, h, none⟩

/-- **Presses a key.** The buffer after it; the echo is written and not flushed. -/
def press (prompt : String) (key : Key) (b : EditBuffer) : DeskM EditBuffer := do
  let ⟨b, history, echo⟩ := stroke prompt key b (← get).history
  DeskM.modifyHistory fun _ => history
  match echo with
  | none => return b
  | some text =>
    DeskM.onTerminal (Effect.write text)
    return b

/-- How far the reading of a line has come. -/
inductive Reading where
  /-- More keys are wanted. -/
  | going (decoder : Decoder) (buffer : EditBuffer)
  /-- The line is complete. -/
  | complete (buffer : EditBuffer)
  /-- The input was ended on an empty line. -/
  | ended
deriving DecidableEq, Repr

/-- **One byte** that was read. -/
def take (prompt : String) (byte : UInt8) (decoder : Decoder) (b : EditBuffer) :
    DeskM Reading := do
  let (decoder, key) := decoder.step byte
  match key with
  | none => return .going decoder b
  -- This key ends the input only where there is nothing to lose.
  | some .endOfInput =>
    if b.isEmpty then
      DeskM.onTerminal (Effect.writeLine "")
      return .ended
    else return .going decoder b
  | some key =>
    let b ← press prompt key b
    DeskM.onTerminal Effect.flush
    return if decoder = .done then .complete b else .going decoder b

/-- The line where the input has ended: what is in the buffer, unless it is empty. -/
def leftover (b : EditBuffer) : Option EditBuffer := if b.isEmpty then none else some b

/-- **Reads keys** up to the end of a line or of the input: the buffer then, or `none` if the input
ended on an empty one. The list is what the key source holds; it is passed along so that the
recursion is on it. -/
def readKeys (prompt : String) : Bytes → Decoder → EditBuffer → DeskM (Option EditBuffer)
  | [], _, b => do
    let _ ← DeskM.onTerminal Effect.nextByte
    return leftover b
  | _ :: unread, decoder, b => do
    match ← DeskM.onTerminal Effect.nextByte with
    | none => return leftover b
    | some byte =>
      match ← take prompt byte decoder b with
      | .going decoder b => readKeys prompt unread decoder b
      | .complete b => return some b
      | .ended => return none

/-- What is done before the first key is asked for. -/
def prepare (prompt : String) : DeskM Unit := do
  History.ensureLoaded
  DeskM.modifyHistory History.resetRecall
  DeskM.onTerminal (Effect.write prompt)
  DeskM.onTerminal Effect.flush

/-- What becomes of a line that was read: it is finished, and enters the history unless it is empty
then. -/
def accept (b : EditBuffer) : DeskM String := do
  let line := finishLine b.line
  unless line.isEmpty do
    DeskM.modifyHistory (·.record line)
  return line

/-- **Reads one line:** the finished line, possibly empty, or `none` if the input ended on an empty
buffer. A line that is not empty enters the history; the logs are left to the caller. -/
def readLine (maxLength : Nat) (prompt : String) : DeskM (Option String) := do
  prepare prompt
  let unread := (← get).machine.keys.unread
  match ← readKeys prompt unread .normal (.empty (max maxLength 1)) with
  | none => return none
  | some b => return some (← accept b)

end Editor

end LineShell
