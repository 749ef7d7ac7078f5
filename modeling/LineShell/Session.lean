import LineShell.Dispatch
import LineShell.Editor
/-!
A session: reading lines and running them until the input ends or a command asks to leave.

A line is appended to the logs before anything of it runs. A blank line is neither logged nor run.
-/

set_option autoImplicit false

namespace LineShell

/-- What a session is set up with. -/
structure Settings where
  /-- The logs of the history; without them the history is in memory only. -/
  logs : Option Logs := none
  historyCapacity : Nat := 4096
  maxLineLength : Nat := 1024
  wildcardTarget : WildcardTarget := .argument
deriving DecidableEq, Repr

/-- The state of a session. -/
structure Session where
  shell : Shell
  history : History

/-- An action of a session, which may end it. -/
abbrev SessionM := EStateM SessionError Session

namespace SessionM

/-- An action at the desk as an action of the session. The environment is left alone. -/
def atDesk {α : Type} (action : DeskM α) : SessionM α := fun s =>
  let put (desk : Desk) : Session :=
    { shell := { s.shell with machine := desk.machine }, history := desk.history }
  match action ⟨s.shell.machine, s.history⟩ with
  | .ok a desk => .ok a (put desk)
  | .error error desk => .error error (put desk)

/-- An action of the shell as an action of the session. The history is left alone. -/
def inShell {α : Type} (action : ShellM α) : SessionM α := fun s =>
  match action s.shell with
  | .ok a shell => .ok a { s with shell }
  | .error cause shell => .error (.terminal cause) { s with shell }

end SessionM

namespace Session

/-- A session on a machine, with the variables it was given. -/
def start (settings : Settings) (machine : Machine) (vars : List (Bytes × Bytes)) :
    Session where
  shell := ⟨machine, .start vars machine.currentDir.toOption⟩
  history := .start settings.historyCapacity settings.logs

/-- The prompt of an environment. -/
def promptOf (env : Environment) : String := "psh:" ++ stringOf env.currentDir ++ "$ "

/-- What the commands of a session are run with. -/
def setupOf (settings : Settings) (host : Host) (builtins : List BuiltinEntry) : Setup :=
  ⟨host, builtins, settings.wildcardTarget⟩

/-- Reads a line behind the prompt. -/
def readLine (settings : Settings) : SessionM (Option String) := do
  let prompt := promptOf (← get).shell.environment
  SessionM.atDesk (Editor.readLine settings.maxLineLength prompt)

/-- What a session does next. -/
inductive Stage where
  /-- It reads a line. -/
  | reading
  /-- It appends a line to the logs. -/
  | logging (line : String)
  /-- It runs a line. -/
  | running (line : String)
  /-- Nothing: it has come to its end. -/
  | over
deriving DecidableEq, Repr

/-- **One stage.** What it leads to. -/
def advance (settings : Settings) (setup : Setup) : Stage → SessionM Stage
  | .reading => do
    match ← readLine settings with
    | none => return .over
    -- A line of blanks or comments leaves no trace in the logs.
    | some line => return if line.isEmpty then .reading else .logging line
  | .logging line => do
    SessionM.atDesk (History.persist line)
    return .running line
  | .running line => do
    let outcomes ← SessionM.inShell (runLine setup line)
    let left := (outcomes.getLast?.map Outcome.isExit).getD false
    return if left then .over else .reading
  | .over => return .over

/-- Reads one line, and logs and runs it. -/
def round (settings : Settings) (setup : Setup) : SessionM Stage := do
  match ← advance settings setup .reading with
  | .logging line =>
    let stage ← advance settings setup (.logging line)
    advance settings setup stage
  | stage => return stage

/-- Reads and runs lines, at most so many; gives whether the session came to its end. -/
def replWithin (settings : Settings) (setup : Setup) : Nat → SessionM Bool
  | 0 => return false
  | reads + 1 => do
    let stage ← round settings setup
    if stage = .over then return true else replWithin settings setup reads

/-- **Reads and runs lines** until the input ends or a command asks to leave. Each read takes a byte
of the input, except for the last one at its end. -/
def repl (settings : Settings) (setup : Setup) : SessionM Unit := do
  let unread := (← get).shell.machine.keys.unread
  let _ ← replWithin settings setup (unread.length + 1)
  return ()

end Session

end LineShell
