import LineShell.Program
import LineShell.Programs.Arguments
import LineShell.Script.Source
/-!
The state of a process that runs scripts: its variables, functions and options, and the ways in
which running a command can come to an early end.
-/

set_option autoImplicit false

namespace LineShell

/-- A variable of a script. -/
structure Variable where
  name : String
  /-- Its value; a variable may be marked before it has one. -/
  value : Option String
  /-- Whether programs are given it. -/
  exported : Bool
  /-- Whether it keeps its value. -/
  fixed : Bool
deriving DecidableEq, Repr

/-- A program that was found on the search path. -/
structure FoundProgram where
  name : String
  path : String
  /-- Whether the script has gone to another directory since. -/
  moved : Bool
deriving DecidableEq, Repr

/-- A place in the arguments of a script where an option is looked for. -/
structure OptionPlace where
  /-- The number of the next argument. -/
  argument : Nat
  /-- Where the next letter stands in the argument in front of that; zero if it is used up. -/
  position : Nat
deriving DecidableEq, Repr

/-- The place of the first option. -/
def OptionPlace.first : OptionPlace := ⟨1, 0⟩

/-- A process that runs scripts. -/
structure Interpreter where
  process : Process
  vars : List Variable
  functions : List (String × Script)
  /-- The programs that have been found, in that order. -/
  found : List FoundProgram
  aliases : List (String × String)
  /-- The name that the script goes by. -/
  name : String
  arguments : List String
  /-- The status of the last command. -/
  status : Nat
  /-- The status before what is run for a signal, while that is run. -/
  before : Option Nat
  /-- The letters of the options that are set. -/
  letters : List Char
  /-- What is run for a signal; the number zero stands for the end of the script. -/
  traps : List (Nat × String)
  /-- The path by which the script says where it is. -/
  directory : String
  /-- The number that the script takes for its process, also in processes of its own. -/
  number : Nat
  /-- The number of the last process in the background, and the status of each of them. -/
  background : List (Nat × ExitStatus)
  /-- The line of the command that is run. -/
  line : Nat
  /-- The builtin that is run. -/
  command : Option String
  /-- How many loops are around the command. -/
  loops : Nat
  /-- What was put aside by the function calls around the command, for the variables of each. -/
  aside : List (List Variable)
  /-- The status of the last output that was taken into a word of the command. -/
  substituted : Option Nat
  /-- Where the next option is looked for in the arguments. -/
  optionPlace : OptionPlace

/-- Why what follows a command is not run. -/
inductive Stop where
  /-- The process has ended. -/
  | ended (status : ExitStatus)
  /-- Something was wrong, and it has been said what. -/
  | fault
  /-- So many loops are left. -/
  | leave (loops : Nat)
  /-- So many loops less one are left, and the next one goes on. -/
  | again (loops : Nat)
  /-- The function is left. -/
  | back

/-- An action of a process that runs scripts. -/
abbrev InterpreterM := EStateM Stop Interpreter

/-- What a script takes bytes for: NUL bytes are passed over. -/
def scriptText (bytes : Bytes) : String := octetText (bytes.filter (· != 0))

namespace Interpreter

/-- An action of the process. -/
def inProcess {α : Type} (action : ProcessM α) : InterpreterM α := do
  let s ← get
  let (a, process) := action.run s.process
  set { s with process }
  return a

/-- Leaves a status behind. -/
def succeed (status : Nat) : InterpreterM Unit := modify fun s => { s with status }

/-! ## Complaints -/

/-- Says what is wrong. -/
def warn (text : String) : InterpreterM Unit := do
  let s ← get
  let command := match s.command with
    | some name => name ++ ": "
    | none => ""
  inProcess (Process.complain
    (s.name ++ ": " ++ toString s.line ++ ": " ++ command ++ text))

/-- Says what is wrong and gives up. -/
def fail {α : Type} (text : String) : InterpreterM α := do
  warn text
  succeed 2
  throw .fault

/-! ## Variables -/

/-- A variable that is set or marked. -/
def find? (s : Interpreter) (name : String) : Option Variable :=
  s.vars.find? (·.name == name)

/-- The value of a variable. -/
def value? (s : Interpreter) (name : String) : Option String :=
  (s.find? name).bind Variable.value

/-- The variables with one of them changed; a new one comes last. -/
def update (vars : List Variable) (name : String) (change : Variable → Variable) :
    List Variable :=
  if vars.any (·.name == name) then
    vars.map fun v => if v.name == name then change v else v
  else vars ++ [change ⟨name, none, false, false⟩]

/-- A variable that keeps its value refuses a change. -/
def checkFree (name : String) : InterpreterM Unit := do
  if ((← get).find? name).any Variable.fixed then fail (name ++ ": is read only")

/-- A whole number that is not negative. -/
def readNumber (text : String) : InterpreterM Nat := do
  match Utility.integer? text with
  | some n => if 0 ≤ n ∧ n ≤ 2147483647 then return n.toNat else fail ("Illegal number: " ++ text)
  | none => fail ("Illegal number: " ++ text)

/-- The variable that holds the number of the next argument that is looked at for options. -/
def optionIndex : String := "OPTIND"

/-- The variable that holds the search path for programs. -/
def searchName : String := "PATH"

/-- What is known of programs after a variable has changed: nothing, if it was the search path. -/
def foundAfter (s : Interpreter) (name : String) : List FoundProgram :=
  if name = searchName then [] else s.found

/-- Sets a variable without minding what it is for. -/
def put (name value : String) : InterpreterM Unit := do
  checkFree name
  modify fun s =>
    { s with
      vars := update s.vars name fun v =>
        { v with value := some value, exported := v.exported || s.letters.contains 'a' }
      found := s.foundAfter name }

/-- Sets a variable. -/
def assign (name value : String) : InterpreterM Unit := do
  if name = optionIndex then
    checkFree name
    let argument ← readNumber value
    modify fun s => { s with optionPlace := ⟨max 1 argument, 0⟩ }
  put name value

/-- Marks a variable for programs. -/
def exportName (name : String) : InterpreterM Unit :=
  modify fun s => { s with vars := update s.vars name fun v => { v with exported := true } }

/-- Marks a variable as one that keeps its value. -/
def fixName (name : String) : InterpreterM Unit :=
  modify fun s => { s with vars := update s.vars name fun v => { v with fixed := true } }

/-- Removes a variable. -/
def unset (name : String) : InterpreterM Unit := do
  checkFree name
  if name = optionIndex then fail "Illegal number: "
  modify fun s =>
    { s with vars := s.vars.filter (·.name != name), found := s.foundAfter name }

/-- Puts a variable back to what it was. -/
def restore (old : Variable) : InterpreterM Unit :=
  modify fun s =>
    let vars :=
      if old.value.isNone && !old.exported && !old.fixed then
        s.vars.filter (·.name != old.name)
      else update s.vars old.name fun _ => old
    let index := (old.value.bind Utility.integer?).getD 1
    { s with
      vars
      found := s.foundAfter old.name
      optionPlace := if old.name = optionIndex then ⟨max 1 index.toNat, 0⟩ else s.optionPlace }

/-- What a variable is now, to be put back later. -/
def current (s : Interpreter) (name : String) : Variable :=
  (s.find? name).getD ⟨name, none, false, false⟩

/-! ## Programs that have been found -/

/-- Notes the path of a program, unless it is known. -/
def remember (name path : String) : InterpreterM Unit := modify fun s =>
  match s.found.find? (·.name == name) with
  | none => { s with found := s.found ++ [⟨name, path, false⟩] }
  | some _ =>
    { s with found := s.found.map fun program =>
        if program.name == name && program.moved then ⟨name, path, false⟩ else program }

/-- Forgets the program of a name. -/
def forget (name : String) : InterpreterM Unit :=
  modify fun s => { s with found := s.found.filter (·.name != name) }

/-! ## The environment of programs -/

/-- The row of a table that a name belongs to. Variables, aliases and programs are kept in rows, and
shown row by row. -/
def rowOf (rows : Nat) (name : String) : Nat :=
  let first := match name.toList with
    | c :: _ => 16 * c.toNat
    | [] => 0
  name.toList.foldl (fun sum c => sum + c.toNat) first % rows

/-- How many rows variables and aliases are kept in. -/
def nameRows : Nat := 39

/-- How many rows programs are kept in. -/
def programRows : Nat := 31

/-- The variables that programs are given, in the order in which they are given. -/
def environment (s : Interpreter) : List (String × String) :=
  let given := s.vars.filterMap fun v =>
    if v.exported then v.value.map fun value => (v.name, value) else none
  given.mergeSort fun a b => rowOf nameRows a.1 ≤ rowOf nameRows b.1

/-! ## Words -/

/-- What separates words where the variable for it is not set. -/
def defaultSeparators : String := " \t\n"

/-- The characters that separate words. -/
def separators (s : Interpreter) : List Char :=
  ((s.value? "IFS").getD defaultSeparators).toList

/-- What stands between arguments that are put together: the first separator. -/
def joint (s : Interpreter) : String :=
  match s.value? "IFS" with
  | none => " "
  | some text => String.ofList (text.toList.take 1)

/-- A text in quotes, such that reading it as a word gives the text back. -/
def quoted (text : String) : String :=
  let part (run : List Char) : String := "'" ++ String.ofList run ++ "'"
  -- A quote stands between two quoted parts, and is itself quoted otherwise.
  "\"'\"".intercalate ((text.toList.splitOn '\'').map part)

end Interpreter

end LineShell
