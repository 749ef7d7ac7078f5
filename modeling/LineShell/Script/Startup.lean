import LineShell.Script.Runner
/-!
How a process comes to run a script: what it is given, and what its first words ask for.
-/

set_option autoImplicit false

namespace LineShell

namespace Script

open Interpreter (inProcess fail warn succeed)

/-- The variables that are there before a process is given any. -/
def firstVariables : List Variable :=
  [⟨"IFS", some Interpreter.defaultSeparators, false, false⟩,
   ⟨"PATH", some standardSearch, false, false⟩, ⟨"PS1", some "$ ", false, false⟩,
   ⟨"PS2", some "> ", false, false⟩, ⟨"PS4", some "+ ", false, false⟩,
   ⟨Interpreter.optionIndex, some "1", false, false⟩]

/-- The variables of a script that starts in a process: those that it is given, as far as they have
names, but for the ones that always start the same. -/
def variablesOf (p : Process) : List Variable :=
  let given := p.environment.filter fun (name, _) => Script.isName name.toList
  let all := given.foldl (fun vars (name, value) =>
    Interpreter.update vars name fun v => { v with value := some value, exported := true })
    firstVariables
  let always := [("IFS", Interpreter.defaultSeparators), (Interpreter.optionIndex, "1"),
    ("PPID", toString p.starter)]
  always.foldl (fun vars (name, value) =>
    Interpreter.update vars name fun v => { v with value := some value }) all

/-- A script that is about to start in a process. -/
def fresh (name : String) (p : Process) : Interpreter where
  process := { p with lost := none }
  vars := variablesOf p
  functions := []
  found := []
  aliases := []
  name := name
  arguments := []
  status := 0
  before := none
  letters := []
  traps := []
  directory := ""
  number := p.number
  background := []
  line := 0
  command := none
  loops := 0
  aside := []
  substituted := none
  optionPlace := .first

/-- Finds out where the script is: where it was told to be, if that is true. -/
def findDirectory : InterpreterM Unit := do
  let s ← get
  let p := s.process
  let told := do
    let path ← s.value? "PWD"
    let place := (p.files.find none (octetBytes path)).toOption
    if path.toList.head? = some '/' ∧ place.isSome ∧ place = p.base then some path else none
  if p.base.isNone then warn Command.lostDirectory
  Command.settle (told.getD (Command.physicalDir p)) false

/-- Does what the words ask for that a script is started with. -/
def begin (ways : Ways) (words : List String) : InterpreterM Unit := do
  findDirectory
  let found ← readOptions true (words.length + 1) words
  let run (bytes : Bytes) : InterpreterM Unit := do succeed (← runFile ways bytes)
  if found.isCommand then
    match found.rest with
    | [] => fail "-c requires an argument"
    | text :: rest =>
      modify fun s => { s with name := rest.headD s.name, arguments := rest.tail }
      succeed (← runText ways false text)
  else
    match if (← get).letters.contains 's' then [] else found.rest with
    | [] =>
      modify fun s => { s with
        letters := withLetter s.letters 's' true
        arguments := found.rest }
      match ← inProcess Process.readAll with
      | .ok bytes => run bytes
      | .error _ => pure ()
    | path :: rest =>
      let p := (← get).process
      match Connection.openToRead p path with
      | .error cause => fail (Connection.openFault false path cause)
      | .ok _ =>
        modify fun s => { s with name := path, arguments := rest }
        -- A directory can be opened, but there is no script in it.
        run ((p.files.read p.base (octetBytes path)).toOption.getD [])

/-- **Runs the script that words ask for** as all that a process does; the first word is its
name. -/
def execute (ways : Ways) (words : List String) : ProcessM ExitStatus := do
  let s := fresh (words.headD "sh") (← get)
  asProcess ways s (begin ways words.tail)

end Script

end LineShell
