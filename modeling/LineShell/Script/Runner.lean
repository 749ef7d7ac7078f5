import LineShell.Programs.Image
import LineShell.Script.Commands
import LineShell.Script.Redirection
/-!
Running scripts.

A script is run part by part in the process that it belongs to. What it starts, and what it calls,
it runs by ways that it is given; tying the ways together bounds how deep calls go. A command can
come to an early end, which leaves the loops, the function or the process around it.
-/

set_option autoImplicit false

namespace LineShell

namespace Script

open Interpreter (inProcess fail warn succeed)
open Command (announce)

/-- How a part of a script is run. -/
structure Flags where
  /-- Its failure is asked for, and so ends nothing. -/
  tested : Bool
  /-- Nothing follows it in its process, which may become the program that it starts. -/
  last : Bool

/-- The ways to run what a script is made of. -/
structure Ways where
  /-- Runs an image to its end, as the process that it is run in. -/
  execute : Image → ProcessM ExitStatus
  interpret : Flags → Script → InterpreterM Unit

/-! ## Texts -/

/-- Shows the lines of a text that have been read, if that is asked for; gives the text behind
them. -/
def showLines (text : List Char) (source : Source) : InterpreterM (List Char) := do
  let behind := source.behindLine text
  if (← get).letters.contains 'v' then
    let shown := text.take (text.length - behind.length)
    inProcess (Process.printError (String.ofList shown))
  return behind

/-- Runs a text line by line; gives the status of the last command, if there was one. What is behind
the lines that have been read is there if lines are shown. -/
def runLines (ways : Ways) (tested : Bool) :
    Nat → Source → Option (List Char) → Option Nat → InterpreterM (Option Nat)
  | 0, _, _, status => return status
  | count + 1, source, unread, status => do
    match readLine { source with aliases := (← get).aliases } with
    | .error fault rest =>
      let _ ← unread.mapM (showLines · rest)
      modify fun s => { s with line := fault.line }
      fail fault.text
    | .ok none rest =>
      let _ ← unread.mapM (showLines · rest)
      return status
    | .ok (some script) rest =>
      let unread ← unread.mapM (showLines · rest)
      match script with
      | .nothing => runLines ways tested count rest unread status
      | script =>
        ways.interpret ⟨tested, false⟩ script
        runLines ways tested count rest unread (some (← get).status)

/-- Runs a text; gives the status of its last command. -/
def runText (ways : Ways) (tested : Bool) (text : String) : InterpreterM Nat := do
  return (← runLines ways tested (text.length + 2) (.ofText text 1) none none).getD 0

/-- Runs the text of a file, whose lines may be shown; gives the status of its last command. -/
def runFile (ways : Ways) (bytes : Bytes) : InterpreterM Nat := do
  let text := scriptText bytes
  let source := Source.ofText text 1
  return (← runLines ways false (text.length + 2) source (some source.rest) none).getD 0

/-! ## Processes of scripts -/

/-- Runs what the script wants to be run at its end. -/
def atEnd (ways : Ways) (status : Nat) (s : Interpreter) : ExitStatus × Process :=
  match s.traps.lookup 0 with
  | none => (.code (status % 256), s.process)
  | some text =>
    let s := { s with traps := s.traps.filter (·.1 != 0), status, before := some status }
    match runText ways false text s with
    | .error (.ended ended) s => (ended, s.process)
    | .ok _ s | .error _ s => (.code (status % 256), s.process)

/-- **Runs an action as all that a process does.** -/
def asProcess (ways : Ways) (s : Interpreter) (action : InterpreterM Unit) :
    ProcessM ExitStatus := fun p =>
  match action { s with process := p } with
  | .error (.ended (.signal n)) s => (.signal n, s.process)
  | .error (.ended (.code n)) s => atEnd ways n s
  | .ok _ s | .error _ s => atEnd ways s.status s

/-- Runs an action in a process of its own, which starts as a changed copy of this one. What is run
for signals is not run there. -/
def inSubshell (ways : Ways) (prepare : Process → Process) (action : InterpreterM Unit) :
    InterpreterM ExitStatus := do
  let s ← get
  let copy := { s with traps := s.traps.filter fun trap => trap.1 ≠ 0 ∧ trap.2.isEmpty }
  inProcess (Process.inChild prepare (asProcess ways copy action))

/-- Ends the process if a signal has come that is not minded. -/
def endOfSignals : InterpreterM Unit := do
  let s ← get
  let p := s.process
  let fatal := p.posted.find? fun (target, n) =>
    target == p.number && !p.ignored.contains n && (s.traps.lookup n).isNone && Signal.ends n
  if let some (_, n) := fatal then throw (.ended (.signal n))

/-- What a script prints, without the line breaks at its end. -/
def capture (ways : Ways) (script : Script) : InterpreterM String := do
  let s ← get
  let (channel, process) := s.process.addChannel (.stream [])
  set { s with process }
  let status ← inSubshell ways (·.connect 1 (some ⟨channel, false, true⟩))
    (ways.interpret ⟨false, true⟩ script)
  announce status
  endOfSignals
  let text := (scriptText ((← get).process.streamBytes channel)).toList
  modify fun s => { s with
    process.channels := s.process.channels.set channel (.stream [])
    substituted := some status.number }
  return String.ofList (text.reverse.dropWhile (· == '\n')).reverse

/-! ## Signals -/

/-- Does what has to be done for the signals that have come. -/
def takeSignals (ways : Ways) : InterpreterM Unit := do
  let signals ← inProcess Process.takeSignals
  (signals.mergeSort (· ≤ ·)).forM fun n => do
    let s ← get
    match s.traps.lookup n with
    | some text =>
      modify fun s => { s with before := some s.status }
      let _ ← runText ways false text
      modify fun now => { now with before := s.before, status := s.status }
    | none => if Signal.ends n then throw (.ended (.signal n))

/-! ## Programs -/

/-- What is run for the first of some paths that can be run. A file without a known format is a
script, unless it has a fault. -/
def imageAt (p : Process) (fault : String → Option Cause) (words : List String) :
    Cause → List String → Except Cause Image
  | cause, [] => .error cause
  | cause, path :: rest =>
    match Image.load p.files p.base (octetBytes path) words with
    | .ok image => .ok image
    | .error .unknownFormat =>
      match fault path with
      | none => .ok ⟨"sh", "/bin/sh" :: path :: words.tail⟩
      | some cause => imageAt p fault words cause rest
    | .error (.refused other) =>
      let cause := if other == .missing || other == .notDirectory then cause else other
      imageAt p fault words cause rest

/-- Becomes a program, which ends the script. -/
def become (ways : Ways) (image : Image) : InterpreterM Unit := do
  let environment := (← get).environment
  modify fun s => { s with process.environment := environment, traps := [] }
  throw (.ended (← inProcess (ways.execute image)))

/-- Starts a program and waits for its end. -/
def start (ways : Ways) (flags : Flags) (search name : String) (arguments : List String) :
    InterpreterM Unit := do
  let s ← get
  match program s.process search name with
  | .error cause =>
    warn (name ++ ": " ++ programFault cause)
    succeed 127
  | .ok paths =>
    if !name.toList.contains '/' then Interpreter.remember name (paths.headD name)
    match imageAt s.process (scriptFault s.process) (name :: arguments) .missing paths with
    | .error cause =>
      warn (name ++ ": " ++ programFault cause)
      succeed (programFaultStatus cause)
    | .ok image =>
      if flags.last && s.traps.isEmpty then become ways image
      else
        let status ← inProcess (Process.inChild
          (fun p => { p with environment := s.environment }) (ways.execute image))
        announce status
        succeed status.number

/-- Becomes the program that some words name. -/
def exec (ways : Ways) (words : List String) : InterpreterM Nat := do
  match words with
  | [] => return 0
  | name :: _ =>
    let s ← get
    let paths := programPaths (Search.path s) name
    match imageAt s.process (scriptFault s.process) words .missing paths with
    | .ok image =>
      become ways image
      return 0
    | .error cause =>
      warn (name ++ ": " ++ programFault cause)
      let status := programFaultStatus cause
      succeed status
      throw (.ended (.code status))

/-! ## What words mean -/

/-- What the first word of a command stands for. -/
inductive Meaning where
  | function (body : Script)
  | command
  | program

/-- What a word stands for. -/
def meaningOf (s : Interpreter) (functions : Bool) (name : String) : Meaning :=
  match if functions then s.functions.lookup name else none with
  | some body => .function body
  | none => if Command.isKnown name then .command else .program

/-- Says what a word stands for: to a reader, or as what could be typed instead. -/
def describe (forReader : Bool) (name : String) : InterpreterM Nat := do
  let s ← get
  let found (text short : String) : InterpreterM Nat := do
    Command.printLine (if forReader then name ++ " is " ++ text else short)
    return 0
  if reservedWords.contains name then found "a shell keyword" name
  else if let some text := s.aliases.lookup name then
    found ("an alias for " ++ text) ("alias " ++ Command.aliasText name text)
  else match meaningOf s true name with
    | .function _ => found "a shell function" name
    | .command =>
      found (if Command.isSpecial name then "a special shell builtin" else "a shell builtin") name
    | .program =>
      let stands := !name.toList.contains '/' || (s.process.look name).toOption.isSome
      match program s.process (Search.path s) name with
      | .ok (path :: _) =>
        if let some known := s.found.find? (·.name == name) then
          found ("a tracked alias for " ++ known.path) known.path
        else if stands then
          if !name.toList.contains '/' then Interpreter.remember name path
          found path path
        else
          if forReader then Command.printLine (name ++ ": not found")
          return 127
      | _ =>
        if forReader then Command.printLine (name ++ ": not found")
        return 127

/-! ## Commands that run scripts -/

/-- Leaves a function or a file where that is asked for. -/
def untilReturn (action : InterpreterM Unit) : InterpreterM Unit :=
  tryCatch action fun
    | .back => pure ()
    | stop => throw stop

/-- Runs the commands of a file in this script. -/
def source (ways : Ways) (arguments : List String) : InterpreterM Nat := do
  let (_, operands) ← Command.allOptions "" arguments
  match operands with
  | [] => return 0
  | name :: _ =>
    let s ← get
    let path := (programPaths (Search.path s) name).find? fun path =>
      s.process.files.isFile s.process.base (octetBytes path)
    match if name.toList.contains '/' then some name else path with
    | none => fail (name ++ ": not found")
    | some path =>
      match Connection.openToRead s.process path with
      | .error cause => fail (Connection.openFault false path cause)
      | .ok _ =>
        let bytes := (s.process.files.read s.process.base (octetBytes path)).toOption.getD []
        modify fun s => { s with command := some path, status := 0 }
        untilReturn do succeed (← runFile ways bytes)
        return (← get).status

/-- How many function calls may be in one another. -/
def maxCalls : Nat := 1000

/-- Calls a function. -/
def call (ways : Ways) (tested : Bool) (body : Script) (arguments : List String) :
    InterpreterM Unit := do
  let before ← get
  if maxCalls ≤ before.aside.length then
    fail ("Maximum function recursion depth (" ++ toString maxCalls ++ ") reached")
  set { before with arguments, loops := 0, aside := [] :: before.aside, optionPlace := .first }
  let leave : InterpreterM Unit := do
    let aside := (← get).aside.headD []
    modify fun s => { s with
      arguments := before.arguments
      loops := before.loops
      aside := before.aside
      optionPlace := before.optionPlace }
    aside.forM Interpreter.restore
  tryFinally (untilReturn (ways.interpret ⟨tested, false⟩ body)) leave

/-- Looks for the program that a word names and notes its path; gives whether that was possible. -/
def seek (name : String) : InterpreterM (Except Cause Unit) := do
  let s ← get
  match meaningOf s true name with
  | .program =>
    match program s.process (Search.path s) name with
    | .ok paths =>
      if !name.toList.contains '/' then Interpreter.remember name (paths.headD name)
      return .ok ()
    | .error cause => return .error cause
  | _ => return .ok ()

/-- Looks for programs, shows those that have been found, or forgets them. -/
def hash (arguments : List String) : InterpreterM Nat := do
  let (given, names) ← Command.allOptions "r" arguments
  if !given.isEmpty then
    modify fun s => { s with found := [] }
    return 0
  if names.isEmpty then
    let row (program : FoundProgram) : Nat := Interpreter.rowOf Interpreter.programRows program.name
    let found := (← get).found.mergeSort fun a b => row a ≤ row b
    found.forM fun program =>
      Command.printLine (program.path ++ if program.moved then "*" else "")
  names.foldlM (fun status name => do
    Interpreter.forget name
    match ← seek name with
    | .ok _ => return status
    | .error cause =>
      warn (name ++ ": " ++ programFault cause)
      return 1) 0

/-- What is asked of the command that runs another one: the words of that one, or to describe
it. -/
inductive Passing where
  | run (words : List String) (standard : Bool)
  | describe (forReader : Bool) (names : List String)

/-- What the words behind the name of that command ask for. -/
def passing (arguments : List String) : InterpreterM Passing := do
  let (given, operands) ← Command.allOptions "pvV" arguments
  match (given.filter (·.1 != 'p')).getLast? with
  | some (letter, _) => return .describe (letter = 'V') operands
  | none => return .run operands (given.any (·.1 == 'p'))

/-- Runs a command of the script language; what it gives up for has been said. -/
def runCommand (ways : Ways) (flags : Flags) (strict : Bool) (name : String)
    (arguments : List String) : InterpreterM Unit := do
  let outer := (← get).command
  let action : InterpreterM Nat := match name with
    | "eval" => runText ways flags.tested (" ".intercalate arguments)
    | "." => source ways arguments
    | "exec" => exec ways arguments
    | "hash" => hash arguments
    | "type" => arguments.foldlM (fun status word => do
        return max status (← describe true word)) 0
    | _ => (Command.table.lookup name).elim (pure 127) (· arguments)
  modify fun s => { s with command := some name }
  let finished : InterpreterM Unit := do
    succeed (← action)
    if (← get).process.lost.isSome then
      modify fun s => { s with process.lost := none }
      warn (name ++ ": I/O error")
      succeed ((← get).status ||| 1)
  let guarded : InterpreterM Unit := tryCatch finished fun
    | .fault => if strict then throw .fault else pure ()
    | stop => throw stop
  tryFinally guarded (modify fun s => { s with command := outer })

/-- Where programs are looked for if that is not to be changed. -/
def standardSearch : String := "/usr/local/sbin:/usr/local/bin:/usr/sbin:/usr/bin:/sbin:/bin"

/-- Runs a command whose words have been expanded; `strict` says that giving up ends the script. -/
def runWords (ways : Ways) (flags : Flags) : Nat → Bool → Bool → String → List String →
    InterpreterM Unit
  | 0, _, _, _, _ => return
  | _, _, _, _, [] => do succeed ((← get).substituted.getD 0)
  | count + 1, functions, strict, search, name :: arguments => do
    match meaningOf (← get) functions name with
    | .function body => call ways flags.tested body arguments
    | .program => start ways flags search name arguments
    | .command =>
      if name = "command" then
        match ← passing arguments with
        | .run [] _ => succeed 0
        | .run words standard =>
          runWords ways flags count false false (if standard then standardSearch else search)
            words
        | .describe forReader names =>
          match names with
          | [] => succeed 0
          | name :: _ => succeed (← describe forReader name)
      else
        runCommand ways flags (strict && Command.isSpecial name) name arguments

/-! ## Simple commands -/

/-- The text of an assignment. -/
def assignmentText (ways : Ways) (value : Word) : InterpreterM String :=
  expandText (capture ways) .assignment value

/-- The words of a command up to the first one that stands for any, and the words behind that. -/
def firstWords (ways : Ways) : List Word → InterpreterM (List String × List Word)
  | [] => return ([], [])
  | word :: rest => do
    match ← expand (capture ways) word with
    | [] => firstWords ways rest
    | found => return (found, rest)

/-- The words of a command. -/
def expandWords (ways : Ways) (words : List Word) : InterpreterM (List String) := do
  let (first, rest) ← firstWords ways words
  let s ← get
  let name? := match first, rest.head?.bind Word.plain? with
    | ["command"], some name => some name
    | first, _ => first.head?
  let whole := name?.any fun name =>
    Command.takesAssignments name && (s.functions.lookup name).isNone
  let others ← rest.mapM fun word => do
    match if whole then assignment? word else none with
    | some (name, value) => return [name ++ "=" ++ (← assignmentText ways value)]
    | none => expand (capture ways) word
  return first ++ others.flatten

/-- A text as a word in which parameters are expanded. -/
def wordOf (text : String) : Word :=
  match (Readers.within (2 * text.length + 8)).word .document [] (.ofText text 1) with
  | .ok word _ => word
  | .error .. => [.literal text.toList true]

/-- Shows a command before it is run, to where errors went before its redirections. -/
def trace (ways : Ways) (errors : Option Descriptor) (words : List String) :
    InterpreterM Unit := do
  let s ← get
  if s.letters.contains 'x' then
    -- What the mark in front is made of is not shown itself.
    modify fun s => { s with letters := withLetter s.letters 'x' false }
    let mark ← expandText (capture ways) .text (wordOf ((s.value? "PS4").getD ""))
    modify fun s => { s with letters := withLetter s.letters 'x' true }
    let own := (← get).process.descriptors.lookup 2
    inProcess do
      modify (·.connect 2 errors)
      Process.complain (mark ++ " ".intercalate words)
      modify (·.connect 2 own)

/-- Sets variables one after the other, marks them for programs, and does something with the words
that they were set by; behind that, they may be put back to what they were. -/
def withAssigned (ways : Ways) (passing marked : Bool) :
    List (String × Word) → (List String → InterpreterM Unit) → InterpreterM Unit
  | [], action => action []
  | (name, value) :: rest, action => do
    let text ← assignmentText ways value
    let old := (← get).current name
    let assigned : InterpreterM Unit := do
      Interpreter.assign name text
      if marked then Interpreter.exportName name
      withAssigned ways passing marked rest fun words => action ((name ++ "=" ++ text) :: words)
    if passing then tryFinally assigned (Interpreter.restore old) else assigned

/-- **Runs a simple command:** words are expanded, then descriptors are connected, then variables
are set, and the command is run. -/
def runSimple (ways : Ways) (flags : Flags) (line : Nat) (assignments : List (String × Word))
    (words : List Word) (redirects : List Redirect) : InterpreterM Unit := do
  modify fun s => { s with line, substituted := none }
  let words ← expandWords ways words
  let s ← get
  let special := match words with
    | [] => false
    | name :: _ => (s.functions.lookup name).isNone && Command.isSpecial name
  -- What is assigned in front of most commands is forgotten behind them.
  let passing := !words.isEmpty && !special
  let isExec := special && words.head? = some "exec"
  let connections ← redirects.mapM (Connection.ofRedirect (capture ways))
  let errors := s.process.descriptors.lookup 2
  let made ← connected (capture ways) connections isExec do
    let marked := passing || (isExec && 1 < words.length)
    withAssigned ways passing marked assignments fun assigned => do
      trace ways errors (assigned ++ words)
      runWords ways flags (words.length + 1) true true (Search.path (← get)) words
  if !made then
    succeed 2
    if special then throw .fault

/-! ## Loops -/

/-- How a turn of a loop ends. -/
inductive Turn where
  | done
  | left
deriving DecidableEq

/-- A part of a loop, which may leave the loop or go on with its next turn. -/
def inLoop (action : InterpreterM Unit) : InterpreterM (Option Turn) :=
  tryCatch (do action; return none) fun
    | .leave n => if n ≤ 1 then return some .left else throw (.leave (n - 1))
    | .again n => if n ≤ 1 then return some .done else throw (.again (n - 1))
    | stop => throw stop

/-- Runs an action with one more loop around it. -/
def looping (action : InterpreterM Unit) : InterpreterM Unit := do
  let loops := (← get).loops
  modify fun s => { s with loops := loops + 1 }
  tryFinally action (modify fun s => { s with loops })

/-- How many turns a loop takes at most. -/
def maxTurns : Nat := 1000000

/-- Repeats a part of a script as long as a condition holds, or does not hold. -/
def repeatWhile (ways : Ways) (tested : Bool) (condition : Script) (wanted : Bool)
    (body : Script) : Nat → Nat → InterpreterM Unit
  | 0, _ => throw (.ended (.signal 9))
  | count + 1, status => do
    match ← inLoop (ways.interpret ⟨true, false⟩ condition) with
    | some .left => succeed status
    | some .done => repeatWhile ways tested condition wanted body count status
    | none =>
      if ((← get).status == 0) == wanted then
        match ← inLoop (ways.interpret ⟨tested, false⟩ body) with
        | some .left => return
        | _ => repeatWhile ways tested condition wanted body count (← get).status
      else succeed status

/-- Runs a part of a script for each of some values. -/
def repeatFor (ways : Ways) (tested : Bool) (name : String) (body : Script) :
    List String → InterpreterM Unit
  | [] => return
  | value :: rest => do
    Interpreter.assign name value
    match ← inLoop (ways.interpret ⟨tested, false⟩ body) with
    | some .left => return
    | _ => repeatFor ways tested name body rest

/-! ## Pipelines and background -/

/-- Looks for the program that a part of a pipeline is going to start, where that is plain. -/
def seekAhead : Script → InterpreterM Unit
  | .simple _ _ (word :: _) _ => do
    match Word.plain? word with
    | some name => if isName name.toList then let _ ← seek name
    | none => pure ()
  | _ => pure ()

/-- Runs the parts of a pipeline one after the other; each reads what the one in front of it has
printed. Gives the status of the last one. -/
def runParts (ways : Ways) (flags : Flags) : Option Nat → List Script → InterpreterM ExitStatus
  | _, [] => return .code 0
  | input, part :: rest => do
    seekAhead part
    let s ← get
    let (output, process) := s.process.addChannel (.stream [])
    set { s with process }
    let prepare (p : Process) : Process :=
      let p := match input with
        | some channel => p.connect 0 (some ⟨channel, true, false⟩)
        | none => p
      if rest.isEmpty then p else p.connect 1 (some ⟨output, false, true⟩)
    let status ← inSubshell ways prepare (ways.interpret { flags with last := true } part)
    announce status
    if rest.isEmpty then return status
    runParts ways flags (some output) rest

/-- Runs a script in the background, where it has no input. It comes to its end at once. -/
def runBackground (ways : Ways) (script : Script) : InterpreterM Unit := do
  let s ← get
  let number := s.process.fresh
  let (input, process) := s.process.addChannel (.stream [])
  set { s with process }
  let prepare (p : Process) : Process :=
    { p.connect 0 (some ⟨input, true, false⟩) with ignored := 2 :: 3 :: p.ignored }
  let status ← inSubshell ways prepare (ways.interpret ⟨false, true⟩ script)
  modify fun s => { s with background := (number, status) :: s.background }
  succeed 0

/-! ## Scripts -/

/-- Ends the script if a failure is to end it. -/
def checkFailure (flags : Flags) : InterpreterM Unit := do
  let s ← get
  if s.letters.contains 'e' && !flags.tested && s.status ≠ 0 then
    throw (.ended (.code s.status))

/-- Runs the branch of a choice that has a pattern for a text. -/
def runChoice (ways : Ways) (flags : Flags) (text : List Char) :
    List (List Word × Script) → InterpreterM Unit
  | [] => succeed 0
  | (patterns, body) :: rest => do
    -- A pattern is expanded only if those in front of it do not match.
    let fits ← patterns.anyM fun word => do
      return (← expandPattern (capture ways) word).matchesText text
    if !fits then runChoice ways flags text rest
    else match body with
      | .nothing => succeed 0
      | body => ways.interpret flags body

/-- **Runs a script.** -/
def interpret (ways : Ways) (flags : Flags) (script : Script) : InterpreterM Unit := do
  if (← get).letters.contains 'n' then return
  takeSignals ways
  let inner : Flags := ⟨flags.tested, false⟩
  match script with
  | .nothing => pure ()
  | .simple line assignments words redirects =>
    runSimple ways flags line assignments words redirects
    takeSignals ways
    checkFailure flags
  | .sequence first second =>
    ways.interpret inner first
    ways.interpret flags second
  | .both first second =>
    ways.interpret ⟨true, false⟩ first
    if (← get).status = 0 then ways.interpret flags second
  | .either first second =>
    ways.interpret ⟨true, false⟩ first
    if (← get).status ≠ 0 then ways.interpret flags second
  | .negation script =>
    ways.interpret ⟨true, false⟩ script
    succeed (if (← get).status = 0 then 1 else 0)
  | .pipeline parts =>
    let status ← runParts ways flags none parts
    succeed status.number
    takeSignals ways
    checkFailure flags
  | .background script =>
    runBackground ways script
    takeSignals ways
  | .subshell line script redirects =>
    modify fun s => { s with line }
    let connections ← redirects.mapM (Connection.ofRedirect (capture ways))
    let action : InterpreterM Unit := do
      let inner := ways.interpret { flags with last := true } script
      if !(← connected (capture ways) connections true inner) then
        succeed 2
    if flags.last && (← get).traps.isEmpty then
      action
      throw (.ended (.code (← get).status))
    else
      let status ← inSubshell ways id action
      announce status
      succeed status.number
      takeSignals ways
      checkFailure flags
  | .group line script redirects =>
    modify fun s => { s with line }
    let connections ← redirects.mapM (Connection.ofRedirect (capture ways))
    if !(← connected (capture ways) connections false (ways.interpret inner script)) then
      succeed 2
      checkFailure flags
  | .branch condition yes no =>
    ways.interpret ⟨true, false⟩ condition
    if (← get).status = 0 then ways.interpret flags yes
    else
      match no with
      | .nothing => succeed 0
      | no => ways.interpret flags no
  | .loop condition wanted body =>
    looping (repeatWhile ways flags.tested condition wanted body maxTurns 0)
  | .each line name words body =>
    modify fun s => { s with line }
    let values ← words.mapM (expand (capture ways))
    if values.flatten.isEmpty then succeed 0
    looping (repeatFor ways flags.tested name body values.flatten)
  | .choice line word branches =>
    modify fun s => { s with line }
    let text ← expandText (capture ways) .text word
    runChoice ways flags text.toList branches
  | .function name body =>
    modify fun s => { s with
      functions := (name, body) :: s.functions.filter (·.1 != name)
      found := s.found.filter (·.name != name)
      status := 0 }

end Script

end LineShell
