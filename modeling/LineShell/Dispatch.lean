import LineShell.Alias
import LineShell.Builtin
import LineShell.Line
import LineShell.Wildcard
/-!
Running a line: each of its commands is resolved and run, in order.

A command is resolved in a fixed order: the word `exit`, aliases, an assignment, a builtin, a
wildcard pattern, a program. The first that applies settles it. Aliases are read anew for each
command, from the directory that the machine is in then.
-/

set_option autoImplicit false

namespace LineShell

/-- Which word is expanded when the name of a command is a wildcard pattern. -/
inductive WildcardTarget where
  /-- The word behind the name. -/
  | argument
  /-- The name itself. -/
  | commandName
deriving DecidableEq, Repr

/-- What stays the same while commands run. -/
structure Setup where
  host : Host
  builtins : List BuiltinEntry
  wildcardTarget : WildcardTarget

/-- What became of a command. -/
inductive Outcome where
  /-- It asked to leave the shell. -/
  | exit
  /-- A builtin ran and had this status. -/
  | builtin (status : Nat)
  /-- A program ran and had this status. -/
  | external (status : Nat)
  /-- A wildcard pattern was expanded. -/
  | wildcard
  /-- It was an assignment. -/
  | assignment
  /-- Nothing could run it; that has been said on the screen. -/
  | notFound
  /-- There was nothing to do. -/
  | noOp
  /-- It could not be resolved, and the rest of the line is not run. -/
  | aborted
deriving DecidableEq, Repr

namespace Outcome

/-- Whether the shell is to be left. -/
def isExit (outcome : Outcome) : Bool := outcome == .exit

/-- Whether the commands behind this one must not run. -/
def endsLine (outcome : Outcome) : Bool := outcome == .exit || outcome == .aborted

end Outcome

namespace Dispatch

/-- The word that ends a session before anything is looked up. -/
def exitWord : String := "exit"

/-! ## Steps of the resolution -/

/-- Says that a command was not found. -/
def notFound (name : String) : ShellM Outcome := do
  ShellM.writeLine ("psh: No command found: " ++ name)
  return .notFound

/-- The aliases in a directory. A missing file has none, and a file that cannot be read is passed
over with a notice. -/
def aliases (directory : Path) : ShellM AliasTable := do
  let m := (← get).machine
  match m.files.readText m.base (directory.join Alias.filePath) with
  | .ok contents =>
    (AliasTable.malformedLines contents).forM fun _ =>
      ShellM.onMachine (Effect.note (.noticed .malformedAlias))
    return AliasTable.parse contents
  | .error .missing => return .empty
  | .error _ =>
    ShellM.onMachine (Effect.note (.noticed .aliasFileIgnored))
    return .empty

/-- Applies an assignment. -/
def assign (word : String) : ShellM Outcome := do
  match (← get).environment.assign? word with
  | some env => ShellM.modifyEnvironment fun _ => env
  | none => ShellM.writeLine ("psh: invalid assignment: " ++ word)
  return .assignment

/-- Runs a command of the shell itself. One that fails for good has status one. A session that has
been asked to stop is left. -/
def runBuiltin (command : Command) : ShellM Outcome := do
  let status ← tryCatch command fun _ => do
    ShellM.onMachine (Effect.note (.noticed .builtinFailed))
    return 1
  return if (← get).environment.shouldExit then .exit else .builtin status

/-- Prints what a wildcard pattern matches in a directory. -/
def expandWildcard (setup : Setup) (name : String) (arguments : List String) (directory : Path) :
    ShellM Outcome := do
  let pattern? := match setup.wildcardTarget with
    | .argument => arguments.head?
    | .commandName => some name
  -- A name with `?` is never expanded, whichever word the pattern is.
  match name.toList.contains '?', pattern? with
  | false, some pattern =>
    ShellM.onMachine (Wildcard.print pattern directory)
    return .wildcard
  | _, _ => notFound name

/-- What a program is given that was found for a command. -/
def launchOf (env : Environment) (program : Path) (words : List String) : Launch :=
  ⟨program, words, env.vars, env.currentDir⟩

/-- Finds and runs a program. What was printed before it has to land first. -/
def runProgram (setup : Setup) (name : String) (arguments : List String) : ShellM Outcome := do
  -- A program prints directly, so what is held back would come too late.
  ShellM.onMachine Effect.flush
  let { machine, environment } ← get
  let search := bytesOf ((environment.get? "PATH").getD "")
  match Program.find? machine.files machine.base (bytesOf name) search environment.currentDir with
  | none => notFound name
  | some program =>
    let launch := launchOf environment program (name :: arguments)
    match ← ShellM.onMachine (Effect.launch setup.host launch) with
    | some status => return .external status.number
    | none => notFound name

/-- A command whose aliases have been expanded, in the directory that the machine is in. -/
def resolve (setup : Setup) (directory : Path) (name : String) (arguments : List String) :
    ShellM Outcome := do
  let { environment, .. } ← get
  if name.toList.contains '=' then assign name
  else match setup.builtins.findSome? (·.command? environment name arguments) with
    | some command => runBuiltin command
    | none =>
      if Wildcard.isPattern name then expandWildcard setup name arguments directory
      else runProgram setup name arguments

end Dispatch

/-! ## Commands and lines -/

/-- **Resolves and runs one command,** given by its words. -/
def dispatch (setup : Setup) (words : List String) : ShellM Outcome := do
  ShellM.onMachine (Effect.note (.dispatched words))
  match words with
  | [] => return .noOp
  | first :: _ =>
    -- No alias can take this word away, and no missing directory stands in its way.
    if first = Dispatch.exitWord then return .exit
    match (← get).machine.currentDir with
    | .error cause =>
      ShellM.onMachine (Effect.note (.noticed .noWorkingDirectory))
      ShellM.writeLine ("psh: failed to get current working directory: " ++ cause.message)
      return .aborted
    | .ok directory =>
      match (← Dispatch.aliases directory).expand words with
      | [] => return .noOp
      | name :: arguments => Dispatch.resolve setup directory name arguments

/-- Runs commands up to one that ends the line; gives what became of each. -/
def runCommands (setup : Setup) : List String → ShellM (List Outcome)
  | [] => return []
  | command :: rest => do
    let outcome ← dispatch setup (wordsOf command)
    if outcome.endsLine then return [outcome]
    return outcome :: (← runCommands setup rest)

/-- **Runs a line.** What it printed has landed at the end. -/
def runLine (setup : Setup) (line : String) : ShellM (List Outcome) := do
  let outcomes ← runCommands setup (commandsOf line)
  ShellM.onMachine Effect.flush
  return outcomes

end LineShell
