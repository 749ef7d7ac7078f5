import LineShell.Bindings
import LineShell.Files.Path
import LineShell.Text.Cut
/-!
What commands share: the variables, the working directory, and the wish to stop.

The variables are exactly what programs are given.
-/

set_option autoImplicit false

namespace LineShell

/-- What the commands of a session share. -/
structure Environment where
  vars : Bindings
  /-- The directory that builtins and programs work in. -/
  currentDir : Path
  /-- Set once a command has asked to leave the shell. -/
  shouldExit : Bool
deriving DecidableEq

namespace Environment

/-- The environment that a session starts with, from the variables it was given. A variable whose
name or value is no text is left out; without a readable directory the session is in `.`. -/
def start (vars : List (Bytes × Bytes)) (directory : Option Path) : Environment where
  vars := .ofList (vars.filterMap fun (name, value) =>
    match stringOf? name, stringOf? value with
    | some name, some value => some (name, value)
    | _, _ => none)
  currentDir := directory.getD Path.dot
  shouldExit := false

/-- The value of a variable. -/
def get? (env : Environment) (name : String) : Option String := env.vars.get? name

/-- Sets a variable. -/
def set (env : Environment) (name value : String) : Environment :=
  { env with vars := env.vars.insert name value }

/-- Removes a variable. -/
def unset (env : Environment) (name : String) : Environment :=
  { env with vars := env.vars.erase name }

/-- A word cut at its first equals sign, if it has one. -/
def assignment? (word : String) : Option (String × String) :=
  (Text.cutAt? '=' word.toList).map fun (name, value) =>
    (String.ofList name, String.ofList value)

/-- **Applies a word `NAME=value`.** There is nothing to apply if the word has no equals sign or no
name in front of it. -/
def assign? (env : Environment) (word : String) : Option Environment :=
  match assignment? word with
  | none => none
  | some (name, value) => if name.isEmpty then none else some (env.set name value)

end Environment

end LineShell
