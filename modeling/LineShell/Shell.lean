import LineShell.Environment
import LineShell.Machine
/-!
The state that commands work on: the machine, and the environment of the session.

The history is not part of it, so no command can change the history.
-/

set_option autoImplicit false

namespace LineShell

/-- What the commands of a session work on. -/
structure Shell where
  machine : Machine
  environment : Environment

/-- An action on that state. It fails only if the terminal does. -/
abbrev ShellM := EStateM Cause Shell

namespace ShellM

/-- An effect on the machine as an action of the shell. -/
def onMachine {α : Type} (effect : Effect α) : ShellM α := fun shell =>
  match effect shell.machine with
  | .ok a machine => .ok a { shell with machine }
  | .error cause machine => .error cause { shell with machine }

/-- Writes a text to the screen. -/
def write (text : String) : ShellM Unit := onMachine (Effect.write text)

/-- Writes a text and ends the line. -/
def writeLine (text : String) : ShellM Unit := onMachine (Effect.writeLine text)

/-- A change of the environment. -/
def modifyEnvironment (change : Environment → Environment) : ShellM Unit :=
  modify fun shell => { shell with environment := change shell.environment }

end ShellM

/-- A command that the shell runs itself. Its result is a status; zero means success. -/
abbrev Command := ShellM Nat

/-- An entry of a table of builtins: it makes a command from a name and its arguments, if it answers
to that name. -/
structure BuiltinEntry where
  name : String
  command? : Environment → String → List String → Option Command

end LineShell
