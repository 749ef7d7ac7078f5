import LineShell.Options.Help
import LineShell.Shell
import LineShell.Text.White
/-!
The commands that the shell runs itself.

A builtin has a grammar. Arguments that fit it make a request, which is run; a refusal of the
arguments and a request for help make a text, which is printed. A request that fails reports why on
the screen and has status one.
-/

set_option autoImplicit false

namespace LineShell

/-- The builtins. -/
inductive Builtin where
  | cd
  | pwd
  | echo
  | env
  | unset
  | help
  | exit
deriving DecidableEq, Repr

namespace Builtin

/-- All builtins, in the order in which they are listed and looked up. -/
def all : List Builtin := [cd, pwd, echo, env, unset, help, exit]

/-- The name that a builtin answers to. -/
def name : Builtin → String
  | cd => "cd"
  | pwd => "pwd"
  | echo => "echo"
  | env => "env"
  | unset => "unset"
  | help => "help"
  | exit => "exit"

/-- What a builtin takes. -/
def grammar : Builtin → Grammar
  | cd =>
    { description := "change the shell's working directory."
      options := []
      positional := .single "target"
        "target directory, `-` for the previous one; $HOME when omitted." }
  | pwd =>
    { description := "print the shell's working directory."
      options := []
      positional := .absent }
  | echo =>
    { description := "print the arguments separated by single spaces."
      options := [⟨"no-newline", some 'n', .switch, "omit the trailing newline."⟩]
      positional := .greedy "words" }
  | env =>
    { description := "print the shell environment as NAME=value lines, sorted by name."
      options := []
      positional := .absent }
  | unset =>
    { description := "remove variables from the shell environment."
      options := []
      positional := .greedy "names" }
  | help =>
    { description := "list the builtin commands."
      options := []
      positional := .absent }
  | exit =>
    { description := "leave the shell."
      options := []
      positional := .greedy "status" }

/-! ## Requests -/

/-- What a builtin is asked to do. -/
inductive Request where
  | changeDir (target : Option String)
  | printDir
  | print (words : List String) (newline : Bool)
  | printVariables
  | unsetVariables (names : List String)
  | listBuiltins
  | leave
deriving DecidableEq, Repr

/-- The request that arguments make. -/
def request (b : Builtin) (arguments : Arguments) : Request :=
  match b with
  | cd => .changeDir arguments.words.head?
  | pwd => .printDir
  | echo => .print arguments.words (!arguments.has "no-newline")
  | env => .printVariables
  | unset => .unsetVariables arguments.words
  | help => .listBuiltins
  | exit => .leave

/-! ## Running a request -/

/-- Why a request fails. -/
inductive Failure where
  | homeNotSet
  | previousDirNotSet
  /-- A directory that cannot be reached. -/
  | unreachable (directory : Path) (cause : Cause)
  | notDirectory (path : Path)
  /-- The screen did not take the output. -/
  | output (cause : Cause)
deriving DecidableEq, Repr

/-- The text of a failure. -/
def Failure.message : Failure → String
  | .homeNotSet => "cd: HOME not set"
  | .previousDirNotSet => "cd: OLDPWD not set"
  | .unreachable directory cause => "cd: " ++ stringOf directory ++ ": " ++ cause.message
  | .notDirectory path => "cd: " ++ stringOf path ++ ": not a directory"
  | .output cause => cause.message

/-- The directory that `cd` is to go to, as written behind the current one. -/
def destination (env : Environment) (target : Option String) : Except Failure Path := do
  let home : Except Failure String := match env.get? "HOME" with
    | some dir => .ok dir
    | none => .error .homeNotSet
  let written ← match target with
    | none => home
    | some "" => home
    | some "-" => match env.get? "OLDPWD" with
      | some dir => .ok dir
      | none => .error .previousDirNotSet
    | some dir => .ok dir
  return env.currentDir.join (bytesOf written)

/-- The shell in another directory. Both the machine and the environment are in the directory's
canonical path then, and two variables say where that is and where the shell was before. -/
def changeDir (target : Option String) (shell : Shell) : Except Failure Shell := do
  let { machine, environment } := shell
  let requested ← destination environment target
  let resolved ← match machine.files.canonical machine.base requested with
    | .ok path => .ok path
    | .error cause => .error (.unreachable requested cause)
  if !machine.files.isDir machine.base resolved then .error (.notDirectory requested)
  let machine ← match machine.enter resolved with
    | .ok machine => .ok machine
    | .error cause => .error (.unreachable resolved cause)
  -- Nothing can fail from here on, so the two directories never come apart.
  let moved := { environment with currentDir := resolved }
  let told := (moved.set "OLDPWD" (stringOf environment.currentDir)).set "PWD" (stringOf resolved)
  return { machine, environment := told }

/-- A variable as it is listed. -/
def variableLine (entry : String × String) : String := entry.1 ++ "=" ++ entry.2

/-- An action that fails only if the screen does. -/
def printing {α : Type} (action : ShellM α) : EStateM Failure Shell α :=
  EStateM.adaptExcept Failure.output action

/-- Runs a request. -/
def perform (request : Request) : EStateM Failure Shell Nat := do
  match request with
  | .changeDir target =>
    match changeDir target (← get) with
    | .ok shell => set shell
    | .error failure => throw failure
  | .printDir => printing (ShellM.writeLine (stringOf (← get).environment.currentDir))
  | .print words newline =>
    printing (ShellM.write (" ".intercalate words ++ if newline then "\n" else ""))
  | .printVariables =>
    (← get).environment.vars.entries.forM fun entry =>
      printing (ShellM.writeLine (variableLine entry))
  | .unsetVariables names => printing (ShellM.modifyEnvironment fun env => names.foldl .unset env)
  | .listBuiltins =>
    printing (ShellM.writeLine "psh builtins:")
    all.forM fun b => printing (ShellM.writeLine ("  " ++ b.name))
    printing (ShellM.writeLine "Anything else is looked up in PATH.")
  | .leave => printing (ShellM.modifyEnvironment fun env => { env with shouldExit := true })
  return 0

/-- **Runs a request and reports a failure** on the screen. -/
def run (request : Request) : Command := fun shell =>
  match perform request shell with
  | .ok status shell => .ok status shell
  | .error failure shell => (do ShellM.writeLine failure.message; return 1 : Command) shell

/-! ## Commands -/

/-- Prints a text about the arguments, without white space at its end, and gives a status. -/
def tell (text : String) (status : Nat) : Command := do
  ShellM.writeLine (String.ofList (Text.trimEnd text.toList))
  return status

/-- The command that a builtin makes of its arguments. -/
def command (b : Builtin) (arguments : List String) : Command :=
  match b.grammar.read arguments with
  | .error refusal => tell refusal.message 1
  | .ok read => if read.help then tell (Help.text b.name b.grammar) 0 else run (b.request read)

/-- The entry of a builtin in a table: it answers to its own name. -/
def entry (b : Builtin) : BuiltinEntry where
  name := b.name
  command? _ name arguments := if name = b.name then some (b.command arguments) else none

/-- The table of all builtins. -/
def table : List BuiltinEntry := all.map entry

end Builtin

end LineShell
