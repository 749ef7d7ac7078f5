import LineShell.Programs.Utility
import LineShell.Script.Startup
/-!
Running the image of a program in a process: a script, a small program, or a program that starts
another one with changed variables.

Scripts start programs and programs run scripts. The ways to do both are tied together here, up to
some depth.
-/

set_option autoImplicit false

namespace LineShell

namespace Utility

open Process

/-- The options of the program that changes variables. -/
def envOptions : List Known :=
  [⟨'i', "ignore-environment", false⟩, ⟨'0', "null", false⟩, ⟨'u', "unset", true⟩,
   ⟨'C', "chdir", true⟩]

/-- Variables with one of them set; a new one comes last. -/
def withVariable (entries : List (String × String)) (name value : String) :
    List (String × String) :=
  if entries.any (·.1 == name) then
    entries.map fun v => if v.1 == name then (name, value) else v
  else entries ++ [(name, value)]

/-- Where programs are looked for if there is no search path. -/
def defaultSearch : String := "/bin:/usr/bin"

/-- Becomes another program. -/
def becomeProgram (ways : Script.Ways) (name : String) (words : List String) :
    ProcessM ExitStatus := do
  let p ← get
  let program := words.headD ""
  let paths := Script.programPaths ((p.valueOf? "PATH").getD defaultSearch) program
  let paths := if program.isEmpty then [] else paths
  match Script.imageAt p (fun _ => none) words .missing paths with
  | .ok image => ways.execute image
  | .error cause =>
    complain (name ++ ": " ++ cited program ++ ": " ++ causeText cause)
    if cause == .missing && program.toList.any Arithmetic.isBlank then
      complain (name ++ ": use -[v]S to pass options in shebang lines")
    return .code (if cause == .missing then 127 else 126)

/-- Changes variables, and starts a program with them or shows them. -/
def env (ways : Script.Ways) (words : List String) : ProcessM ExitStatus := do
  let name := words.headD "env"
  match readWords envOptions false (words.length + 1) words.tail with
  | .error text => return .code (← misuse name text 125)
  | .ok given =>
    let (alone, operands) := match given.operands with
      | "-" :: rest => (true, rest)
      | operands => (false, operands)
    let p ← get
    let start := if alone || given.has 'i' then [] else p.environment
    let unset := given.options.filterMap fun (key, value) => if key = 'u' then some value else none
    match unset.find? fun name => name.isEmpty || name.toList.contains '=' with
    | some bad =>
      complain (name ++ ": cannot unset " ++ cited bad ++ ": Invalid argument")
      return .code 125
    | none =>
      let kept := start.filter fun v => !unset.contains v.1
      let assignments := operands.takeWhile fun word => word.toList.contains '='
      let entries := assignments.foldl (fun entries word =>
        match Text.cutAt? '=' word.toList with
        | some (name, value) => withVariable entries (String.ofList name) (String.ofList value)
        | none => entries) kept
      let command := operands.drop assignments.length
      if given.has '0' && !command.isEmpty then
        return .code (← misuse name "cannot specify --null (-0) with command" 125)
      else if given.has 'C' && command.isEmpty then
        return .code (← misuse name "must specify command with --chdir (-C)" 125)
      else if command.isEmpty then
        let mark := if given.has '0' then "\x00" else "\n"
        print (String.join (entries.map fun (name, value) => name ++ "=" ++ value ++ mark))
        return .code (← finished name 0)
      else
        modify fun p => { p with environment := entries }
        let p ← get
        match given.value? 'C' with
        | none => becomeProgram ways name command
        | some dir =>
          match p.look dir with
          | .ok (place, .dir number _) =>
            set { p with workDir := ⟨place, number⟩ }
            becomeProgram ways name command
          | other =>
            let cause := match other with
              | .error cause => cause
              | .ok _ => .notDirectory
            complain (name ++ ": cannot change directory to " ++ quoted dir ++ ": " ++
              causeText cause)
            return .code 125

end Utility

namespace Running

/-- Runs an image in a process. -/
def execute (ways : Script.Ways) (image : Image) : ProcessM ExitStatus :=
  match image.utility with
  | "sh" => Script.execute ways image.words
  | "env" => Utility.env ways image.words
  | utility => do return .code (← Utility.run utility image.words)

/-- Ways that go so many levels deep at most; what would go deeper runs out of memory. -/
def within : Nat → Script.Ways
  | 0 => ⟨fun _ => return .signal 11, fun _ _ => throw (.ended (.signal 11))⟩
  | depth + 1 =>
    { execute := fun image => execute (within depth) image
      interpret := fun flags script => Script.interpret (within depth) flags script }

/-- How deep calls go. -/
def maxDepth : Nat := 10000

/-- **Runs an image to its end** in a process. -/
def run (image : Image) : ProcessM ExitStatus := execute (within maxDepth) image

/-- The names of the programs that can be run. -/
def names : List String := ["sh", "env"] ++ Utility.names

end Running

end LineShell
