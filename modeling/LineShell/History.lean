import LineShell.Machine
import LineShell.Text.Lines
import LineShell.Text.White
/-!
Lines that were accepted before, and recalling them one by one.

A history holds the latest lines up to its capacity. Recalling is a position counted from the
latest line backwards; it stops at the oldest line, and stepping forward from the latest one ends
it. A history may have two logs: the long-lived one is read when the history is first used, and
both are appended to when a line is accepted.
-/

set_option autoImplicit false

namespace LineShell

/-- The paths of the two logs of a history. -/
structure Logs where
  /-- The log that all sessions share; also where earlier lines are read from. -/
  memory : Path
  /-- The log of one session. -/
  session : Path
deriving DecidableEq, Repr

/-- Lines that were accepted before, oldest first. -/
structure History where
  entries : List String
  capacity : Nat
  /-- How many lines lie between the recalled one and the latest, if one is recalled. -/
  recalled : Option Nat
  logs : Option Logs
  /-- Whether the long-lived log has been read, or need not be. -/
  loaded : Bool
deriving DecidableEq, Repr

/-- A direction of recall. -/
inductive Recall where
  | older
  | newer
deriving DecidableEq, Repr

namespace History

/-- An empty history with a capacity of one at least. Without logs there is nothing to load. -/
def start (capacity : Nat) (logs : Option Logs) : History :=
  ⟨[], max capacity 1, none, logs, logs.isNone⟩

/-- Adds a line, for which the oldest one makes room if need be. -/
def record (h : History) (line : String) : History :=
  { h with
    entries := (if h.entries.length = h.capacity then h.entries.tail else h.entries) ++ [line] }

/-- Adds lines one after the other. -/
def recordAll (h : History) (lines : List String) : History := lines.foldl record h

/-! ## Recall -/

/-- Stops recalling. -/
def resetRecall (h : History) : History := { h with recalled := none }

/-- Whether a line is recalled. -/
def isRecalling (h : History) : Bool := h.recalled.isSome

/-- The position of the recall after one step. -/
def step (h : History) : Recall → Option Nat
  | .older =>
    match h.recalled with
    | none => if h.entries.isEmpty then none else some 0
    -- On the oldest line there is nothing older to go to.
    | some n => if n + 1 < h.entries.length then some (n + 1) else some n
  | .newer =>
    match h.recalled with
    | none => none
    | some 0 => none
    | some (n + 1) => some n

/-- The line that is recalled; the empty line if none is. -/
def recalledLine (h : History) : String :=
  match h.recalled with
  | none => ""
  | some n => h.entries[h.entries.length - 1 - n]?.getD ""

/-- **One step of recall.** The line that it leads to, and the history after it. -/
def revisit (h : History) (direction : Recall) : String × History :=
  let later := { h with recalled := h.step direction }
  (later.recalledLine, later)

end History

/-! ## Logs -/

/-- What reading a line works on: the machine and the history. -/
structure Desk where
  machine : Machine
  history : History

/-- An action at the desk that may end the session. -/
abbrev DeskM := EStateM SessionError Desk

namespace DeskM

/-- An effect on the machine as an action at the desk. -/
def onMachine {α : Type} (fault : Cause → SessionError) (effect : Effect α) : DeskM α :=
  fun desk =>
    match effect desk.machine with
    | .ok a machine => .ok a { desk with machine }
    | .error cause machine => .error (fault cause) { desk with machine }

/-- An effect on the terminal. -/
def onTerminal {α : Type} (effect : Effect α) : DeskM α := onMachine .terminal effect

/-- A change of the history. -/
def modifyHistory (change : History → History) : DeskM Unit :=
  modify fun desk => { desk with history := change desk.history }

end DeskM

namespace History

/-- The lines that a log holds, without the blank ones; bytes that are no text are repaired. -/
def linesOfLog (bytes : Bytes) : List String :=
  ((Text.lines (Utf8.decodeLossy bytes)).filter fun line => !(Text.trim line).isEmpty).map
    String.ofList

/-- Reads the long-lived log, once for each history. A log that is missing is an empty one. -/
def ensureLoaded : DeskM Unit := do
  let desk ← get
  unless desk.history.loaded do
    -- Also a reading that fails is not done again.
    DeskM.modifyHistory fun h => { h with loaded := true }
    match desk.history.logs with
    | none => return
    | some logs =>
      match desk.machine.files.read desk.machine.base logs.memory with
      | .ok bytes => DeskM.modifyHistory (·.recordAll (linesOfLog bytes))
      | .error .missing => return
      | .error cause => throw (.historyLog logs.memory cause)

/-- **Appends a line to both logs.** Both are opened before either is written, so a log that cannot
be opened leaves the contents of the other as they were. -/
def persist (line : String) : DeskM Unit := do
  match (← get).history.logs with
  | none => return
  | some logs =>
    let memory ← DeskM.onMachine (.historyLog logs.memory) (Effect.openFile logs.memory)
    let session ← DeskM.onMachine (.historyLog logs.session) (Effect.openFile logs.session)
    -- Both files are there; only one that stores nothing can fail from here on.
    let entry := bytesOf (line ++ "\n")
    DeskM.onMachine (.historyLog logs.memory) (Effect.append memory entry)
    DeskM.onMachine (.historyLog logs.session) (Effect.append session entry)

end History

end LineShell
