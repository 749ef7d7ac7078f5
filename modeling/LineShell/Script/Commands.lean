import LineShell.Programs.Condition
import LineShell.Programs.Printing
import LineShell.Programs.Signals
import LineShell.Script.Fields
import LineShell.Script.Options
import LineShell.Script.Pattern
import LineShell.Script.Reader
import LineShell.Script.Search
/-!
The commands that the script language has built in, as far as they run no scripts.

Each takes its arguments and gives a status. One that gives up has said why.
-/

set_option autoImplicit false

namespace LineShell

namespace Command

open Interpreter (inProcess fail warn)

/-! ## Arguments -/

/-- The first argument as a number, or what it stands for if there is none. -/
def numberOr (default : Nat) (arguments : List String) : InterpreterM Nat :=
  match arguments with
  | [] => return default
  | text :: _ => Interpreter.readNumber text

/-- The letters of the options in front, with their values; a letter that a colon follows takes
one. -/
def lettersIn (known : List Char) :
    List Char → List String → InterpreterM (List (Char × String) × List String)
  | [], words => return ([], words)
  | c :: more, words => do
    if c = ':' || !known.contains c then fail ("Illegal option -" ++ c.toString)
    if (known.dropWhile (· != c))[1]? = some ':' then
      match more, words with
      | _ :: _, _ => return ([(c, String.ofList more)], words)
      | [], value :: rest => return ([(c, value)], rest)
      | [], [] => fail ("No arg for -" ++ c.toString ++ " option")
    else
      let (found, words) ← lettersIn known more words
      return ((c, "") :: found, words)

/-- Reads the options in front of operands. -/
def options (known : String) : Nat → List String →
    InterpreterM (List (Char × String) × List String)
  | 0, words => return ([], words)
  | _, [] => return ([], [])
  | count + 1, word :: rest => do
    match word.toList with
    | ['-', '-'] => return ([], rest)
    | '-' :: c :: more =>
      let (found, words) ← lettersIn known.toList (c :: more) rest
      let (others, operands) ← options known count words
      return (found ++ others, operands)
    | _ => return ([], word :: rest)

/-- Reads all options in front of operands. -/
def allOptions (known : String) (arguments : List String) :
    InterpreterM (List (Char × String) × List String) :=
  options known (arguments.length + 1) arguments

/-- Prints a line. -/
def printLine (text : String) : InterpreterM Unit := inProcess (Process.print (text ++ "\n"))

/-! ## Printing and testing -/

/-- How escapes are read in what is printed. -/
def dialect : Printing.Dialect := ⟨false, false⟩

/-- How formats are read, and how the command says what is wrong with them. -/
def manner : Printing.Manner where
  dialect := dialect
  shellWords := false
  bareQuotes := true
  grid := Decimals.double
  notNumber text := text ++ ": expected numeric value"
  notWhole text := text ++ ": not completely converted"
  outOfRange text := text ++ ": Numerical result out of range"
  badConversion text := text ++ ": invalid directive"
  missingConversion := "missing format character"

/-- Prints its arguments with single spaces between them. -/
def echo (arguments : List String) : InterpreterM Nat := do
  let newline := arguments.head? != some "-n"
  let text := " ".intercalate (if newline then arguments else arguments.tail)
  let (shown, ended) := Printing.unescape dialect (text.length + 1) text.toList
  inProcess (Process.print (String.ofList shown ++ if newline && !ended then "\n" else ""))
  return 0

/-- Prints its arguments as a format says. -/
def printf (arguments : List String) : InterpreterM Nat := do
  let (_, operands) ← allOptions "" arguments
  match operands with
  | [] => fail "usage: printf format [arg ...]"
  | format :: rest =>
    let printed := Printing.printAll manner format.toList (rest.length + 1) rest
    -- The output is held back until everything is said that is wrong.
    printed.faults.forM warn
    printed.refusal.toList.forM warn
    inProcess (Process.print (String.ofList printed.text))
    if printed.refusal.isSome then
      Interpreter.succeed 2
      throw .fault
    return if printed.faults.isEmpty then 0 else 1

/-- Says by its status whether a condition holds. -/
def test (name : String) (arguments : List String) : InterpreterM Nat := do
  -- Only the start of the closing word is looked at.
  match Condition.wordsOf? (·.toList.head? == some ']') name arguments with
  | none => fail "missing ]"
  | some words =>
    match Condition.InScript.holds (← get).process words with
    | .ok here => return if here then 0 else 1
    | .error text => fail text

/-! ## Directories -/

/-- A path from the root without staying steps and steps back, as far as its text goes. Two slashes
in front, and no more, are kept. -/
def plainPath (path : List Char) : List Char :=
  let steps := (path.splitOn '/').foldl (fun (steps : List (List Char)) step =>
    if step = [] ∨ step = ['.'] then steps
    else if step = ['.', '.'] then steps.tail
    else step :: steps) []
  let front := match path with
    | '/' :: '/' :: '/' :: _ => ['/']
    | '/' :: '/' :: _ => ['/', '/']
    | _ => ['/']
  front ++ ['/'].intercalate steps.reverse

/-- The path of the directory that a process is in. -/
def physicalDir (p : Process) : String :=
  match p.base with
  | some place => octetText place.path
  | none => ""

/-- What is said where the directory of a process is gone. -/
def lostDirectory : String := "getcwd() failed: No such file or directory"

/-- Remembers another directory, and the one before if asked to. -/
def settle (directory : String) (leaving : Bool) : InterpreterM Unit := do
  let old := (← get).directory
  if leaving then
    Interpreter.assign "OLDPWD" old
    Interpreter.exportName "OLDPWD"
  modify fun s => { s with
    directory
    found := s.found.map fun program => { program with moved := true } }
  Interpreter.assign "PWD" directory
  Interpreter.exportName "PWD"

/-- Enters a directory; gives whether that was possible. -/
def enter (physical : Bool) (target : String) : InterpreterM Bool := do
  let s ← get
  let logical? : Option String :=
    if physical then none
    else if target.toList.head? = some '/' then some (String.ofList (plainPath target.toList))
    else if s.directory.isEmpty then none
    else some (String.ofList (plainPath (s.directory.toList ++ '/' :: target.toList)))
  match s.process.look (logical?.getD target) with
  | .ok (place, .dir number rights) =>
    if !rights.pass then return false
    modify fun s => { s with process.workDir := ⟨place, number⟩ }
    settle (logical?.getD (octetText place.path)) true
    return true
  | _ => return false

/-- Goes to another directory. -/
def cd (arguments : List String) : InterpreterM Nat := do
  let (given, operands) ← allOptions "LP" arguments
  let physical := (given.getLast?.map Prod.fst) == some 'P'
  let s ← get
  let (target, shown) := match operands with
    | [] => ((s.value? "HOME").getD "", false)
    | "-" :: _ => ((s.value? "OLDPWD").getD "", true)
    | target :: _ => (target, false)
  let isFixed := match target.toList with
    | '/' :: _ | ['.'] | '.' :: '/' :: _ | ['.', '.'] | '.' :: '.' :: '/' :: _ => true
    | _ => false
  let fronts := if isFixed then [""] else ((s.value? "CDPATH").getD "").splitOn ":"
  let target := if target.isEmpty then "." else target
  -- A directory of the list is tried if something is there under its name.
  let found := fronts.find? fun front =>
    !front.isEmpty && s.process.files.isDir s.process.base (octetBytes (front ++ "/" ++ target))
  let (path, shown) := match found with
    | some front => (front ++ "/" ++ target, true)
    | none => (target, shown)
  if ← enter physical path then
    if shown then printLine (← get).directory
    return 0
  else fail ("can't cd to " ++ target)

/-- Prints the path of the directory that the script is in. -/
def pwd (arguments : List String) : InterpreterM Nat := do
  let (given, _) ← allOptions "LP" arguments
  let s ← get
  if (given.getLast?.map Prod.fst) == some 'P' then
    if s.process.base.isNone then warn lostDirectory
    printLine (physicalDir s.process)
  else printLine s.directory
  return 0

/-- What a clause of letters and signs makes of what is allowed to an owner, a group and others; it
gives nothing if it is no such clause. `runs` says whether anybody was allowed to run files. -/
def clause (runs : Bool) (text : List Char) (allowed : List (Char × Rights)) :
    Option (List (Char × Rights)) :=
  let named := text.takeWhile fun c => "ugoa".toList.contains c
  let who := if named.isEmpty || named.contains 'a' then "ugo".toList else named
  let kind? (allowed : List (Char × Rights)) : Char → Option Rights
    | 'r' => some ⟨true, false, false⟩
    | 'w' => some ⟨false, true, false⟩
    | 'x' => some ⟨false, false, true⟩
    | 'X' => some ⟨false, false, runs⟩
    | 's' => some .none
    | c => allowed.lookup c
  let rec act : Nat → List Char → List (Char × Rights) → Option (List (Char × Rights))
    | 0, _, _ => none
    | _, [], allowed => some allowed
    | count + 1, sign :: rest, allowed => do
      let letters := rest.takeWhile fun c => !"+-=".toList.contains c
      let rights := (← letters.mapM (kind? allowed)).foldl Rights.join .none
      let change ← match sign with
        | '+' => some fun old => Rights.join old rights
        | '-' => some fun old => Rights.without old rights
        | '=' => some fun _ => rights
        | _ => none
      act count (rest.drop letters.length)
        (allowed.map fun (c, old) => (c, if who.contains c then change old else old))
  let actions := text.drop named.length
  if actions.isEmpty then none else act (actions.length + 1) actions allowed

/-- What clauses of letters and signs make of a mask. -/
def maskOf? (mask : Nat) (text : List Char) : Option Nat := do
  let allowed := [('u', mask / 64), ('g', mask / 8), ('o', mask)].map fun (c, digit) =>
    (c, Rights.ofDigit (7 - digit % 8))
  let clauses := text.splitOn ','
  -- Nothing has to follow the last comma.
  let clauses := if clauses.getLast? = some [] then clauses.dropLast else clauses
  let runs := allowed.any fun (_, rights) => rights.pass
  let changed ← clauses.foldlM (fun allowed text => clause runs text allowed) allowed
  return changed.foldl (fun n (_, rights) => 8 * n + (7 - rights.digit)) 0

/-- Says what new files do not allow, or changes it. -/
def umask (arguments : List String) : InterpreterM Nat := do
  let (given, operands) ← allOptions "S" arguments
  let mask := (← get).process.mask
  match operands with
  | [] =>
    if given.isEmpty then
      printLine (Utility.octalDigits 4 mask)
    else
      let part (who : String) (digit : Nat) : String :=
        let rights : Rights := .ofDigit (7 - digit % 8)
        who ++ "=" ++ (if rights.read then "r" else "") ++ (if rights.write then "w" else "") ++
          (if rights.pass then "x" else "")
      printLine (part "u" (mask / 64) ++ "," ++ part "g" (mask / 8) ++ "," ++ part "o" mask)
    return 0
  | text :: _ =>
    let digits := text.toList
    if (digits.head?.map Char.isDigit) = some true then
      if !digits.all fun c => '0' ≤ c ∧ c ≤ '7' then fail ("Illegal number: " ++ text)
      let n := digits.foldl (fun n c => 8 * n + (c.toNat - '0'.toNat)) 0
      modify fun s => { s with process.mask := n % 512 }
      return 0
    else
      match maskOf? mask digits with
      | some mask =>
        modify fun s => { s with process.mask := mask }
        return 0
      | none => fail ("Illegal mode: " ++ text)

/-! ## Variables -/

/-- A word `NAME=value` in two parts. -/
def nameAndValue (word : String) : String × Option String :=
  match Text.cutAt? '=' word.toList with
  | some (name, value) => (String.ofList name, some (String.ofList value))
  | none => (word, none)

/-- Refuses what is no name of a variable. -/
def checkName (name : String) : InterpreterM Unit := do
  if !Script.isName name.toList then fail (name ++ ": bad variable name")

/-- A variable as a command that sets it shows it. -/
def shown (command : String) (v : Variable) : String :=
  (if command.isEmpty then "" else command ++ " ") ++ v.name ++
    (v.value.map fun value => "=" ++ Interpreter.quoted value).getD "" ++ "\n"

/-- Shows the variables of a kind, in the order of their names. -/
def showVariables (command : String) (kind : Variable → Bool) : InterpreterM Nat := do
  let found := ((← get).vars.filter kind).mergeSort fun a b => a.name ≤ b.name
  inProcess (Process.print (String.join (found.map (shown command))))
  return 0

/-- Sets variables and marks them. -/
def mark (command : String) (kind : Variable → Bool) (marking : String → InterpreterM Unit)
    (arguments : List String) : InterpreterM Nat := do
  let (given, operands) ← allOptions "p" arguments
  if operands.isEmpty || !given.isEmpty then showVariables command kind
  else
    operands.forM fun word => do
      let (name, value?) := nameAndValue word
      checkName name
      if let some value := value? then Interpreter.assign name value
      marking name
    return 0

/-- Marks variables for programs. -/
def markExported : List String → InterpreterM Nat :=
  mark "export" Variable.exported Interpreter.exportName

/-- Marks variables that keep their values. -/
def markFixed : List String → InterpreterM Nat :=
  mark "readonly" Variable.fixed Interpreter.fixName

/-- Removes variables or functions. -/
def unset (arguments : List String) : InterpreterM Nat := do
  let (given, operands) ← allOptions "vf" arguments
  let functions := (given.getLast?.map Prod.fst) == some 'f'
  operands.forM fun name => do
    if functions then
      if ((← get).functions.lookup name).isSome then Interpreter.forget name
      modify fun s => { s with functions := s.functions.filter (·.1 != name) }
    else
      checkName name
      Interpreter.unset name
  return 0

/-- Gives variables a value for the time of a function call. -/
def makeLocal (arguments : List String) : InterpreterM Nat := do
  arguments.forM fun word => do
    let s ← get
    match s.aside with
    | [] => fail "not in a function"
    | inner :: outer =>
      let (name, value?) := nameAndValue word
      if name ≠ "-" then
        checkName name
        -- What was put aside first is what comes back.
        if !inner.any (·.name == name) then
          set { s with aside := (s.current name :: inner) :: outer }
        if let some value := value? then Interpreter.assign name value
  if (← get).aside.isEmpty then fail "not in a function"
  return 0

/-- Sets options and arguments. -/
def configure (arguments : List String) : InterpreterM Nat := do
  if arguments.isEmpty then showVariables "" fun v => v.value.isSome
  else
    let found ← Script.readOptions false (arguments.length + 1) arguments
    if found.marked || !found.rest.isEmpty then
      modify fun s => { s with arguments := found.rest, optionPlace := .first }
    return 0

/-- Drops arguments. -/
def shift (arguments : List String) : InterpreterM Nat := do
  let n ← numberOr 1 arguments
  if (← get).arguments.length < n then fail "can't shift that many"
  modify fun s => { s with arguments := s.arguments.drop n, optionPlace := .first }
  return 0

/-! ## Reading -/

/-- Reads a line, and the lines that it goes on in; gives it, and whether it had an end. -/
def readWhole (raw : Bool) : Nat → InterpreterM (Bytes × Bool)
  | 0 => return ([], false)
  | count + 1 => do
    match ← inProcess Process.readLine with
    | .error _ => return ([], false)
    | .ok (line, ended) =>
      let backslashes := (line.reverse.takeWhile (· == 0x5c)).length
      if !raw && ended && backslashes % 2 = 1 then
        let (more, ended) ← readWhole raw count
        return (line.dropLast ++ more, ended)
      else return (line, ended)

/-- Sets variables to the words of a line of the input. -/
def read (arguments : List String) : InterpreterM Nat := do
  let (given, names) ← allOptions "p:r" arguments
  if names.isEmpty then fail "arg count"
  let raw := given.any (·.1 == 'r')
  let available := (((← get).process.readable 0).toOption.getD []).length
  let (line, ended) ← readWhole raw (available + 1)
  let separators := (← get).separators
  let chars := Script.lineChars raw (scriptText line).toList
  let values := Script.Fields.ofLine separators names.length chars
  let missing := List.replicate (names.length - values.length) ""
  (names.zip (values ++ missing)).forM fun (name, value) => do
    checkName name
    Interpreter.assign name value
  return if ended then 0 else 1

/-! ## Options of scripts -/

/-- What looking for the next option gives. -/
structure NextOption where
  /-- The letter, or a question mark. -/
  found : Char
  value? : Option String
  place : OptionPlace
  atEnd : Bool
  complaint : Option String

/-- The letters of the options that a text names, and whether a value has to follow them. -/
def knownLetters : List Char → List (Char × Bool)
  | c :: ':' :: rest => (c, true) :: knownLetters rest
  | c :: rest => (c, false) :: knownLetters rest
  | [] => []

/-- Looks for the next option in words. -/
def nextOption (known : String) (words : List String) (place : OptionPlace) : NextOption :=
  let quiet := known.toList.head? == some ':'
  let current := (words[place.argument - 2]?.getD "").toList
  let inside := 0 < place.position && 2 ≤ place.argument && place.position < current.length
  -- The letters that are left of an argument, and the number of the argument behind it.
  let start : Option (List Char × Nat) :=
    if inside then some (current.drop place.position, place.argument)
    else match (words[place.argument - 1]?.getD "").toList with
      | ['-'] | ['-', '-'] => none
      | '-' :: letters => some (letters, place.argument + 1)
      | _ => none
  match start with
  | some (c :: rest, index) =>
    let place : OptionPlace := ⟨index, (words[index - 2]?.getD "").length - rest.length⟩
    match (knownLetters known.toList).lookup c with
    | none =>
      ⟨'?', if quiet then some c.toString else none, place, false,
        if quiet then none else some ("Illegal option -" ++ c.toString)⟩
    | some false => ⟨c, some "", place, false, none⟩
    | some true =>
      if !rest.isEmpty then ⟨c, some (String.ofList rest), ⟨index, 0⟩, false, none⟩
      else match words[index - 1]? with
        | some value => ⟨c, some value, ⟨index + 1, 0⟩, false, none⟩
        | none =>
          if quiet then ⟨':', some c.toString, ⟨index, 0⟩, false, none⟩
          else ⟨'?', none, ⟨index, 0⟩, false, some ("No arg for -" ++ c.toString ++ " option")⟩
  | _ =>
    let marked := words[place.argument - 1]? = some "--"
    ⟨'?', none, ⟨if marked then place.argument + 1 else place.argument, 0⟩, true, none⟩

/-- Takes the next option from the arguments of the script. -/
def getopts (arguments : List String) : InterpreterM Nat := do
  match arguments with
  | known :: name :: words =>
    let s ← get
    let words := if words.isEmpty then s.arguments else words
    -- A place behind all of the words starts over.
    let place := if words.length + 1 < s.optionPlace.argument then .first else s.optionPlace
    set { s with optionPlace := .first }
    let next := nextOption known words place
    if let some text := next.complaint then
      inProcess (Process.complain text)
    match next.value?, next.atEnd with
    | some value, false => Interpreter.assign "OPTARG" value
    | none, false => Interpreter.unset "OPTARG"
    | _, true => pure ()
    Interpreter.put Interpreter.optionIndex (toString next.place.argument)
    checkName name
    Interpreter.assign name next.found.toString
    modify fun s => { s with optionPlace := next.place }
    return if next.atEnd then 1 else 0
  | _ => fail "Usage: getopts optstring var [arg...]"

/-! ## Signals and processes -/

/-- The signal that a word asks for, by number or by name. -/
def signal? (word : String) (least : Nat) : Option Nat :=
  (Signal.read? word).bind fun n =>
    if least ≤ n || word.toList.all Char.isDigit then some n else none

/-- Sends a signal to the process of a number. -/
def send (signal : Nat) (word : String) : InterpreterM Nat := do
  let target ← match word.toList with
    | '-' :: rest => Interpreter.readNumber (String.ofList rest)
    | _ => Interpreter.readNumber word
  let p := (← get).process
  if p.isKnown target then
    -- Number zero only asks whether there is such a process.
    if signal ≠ 0 then inProcess (Process.post (if target = 0 then p.number else target) signal)
    return 0
  else
    warn "No such process\n"
    return 1

/-- Sends signals, or lists them. -/
def kill (arguments : List String) : InterpreterM Nat := do
  let usage : InterpreterM Nat := fail ("Usage: kill [-s sigspec | -signum | -sigspec] " ++
    "[pid | job]... or\nkill -l [exitstatus]")
  let (given, operands) ← match arguments with
    | word :: rest =>
      match word.toList with
      | '-' :: name =>
        match signal? (String.ofList name) 1 with
        | some n => pure ([('s', toString n)], rest)
        | none => allOptions "ls:" arguments
      | _ => pure ([], arguments)
    | [] => pure ([], [])
  if given.any (·.1 == 'l') then
    match operands with
    | [] =>
      printLine "0"
      (List.range Signal.highest).forM fun n => printLine (Signal.nameOf (n + 1))
      return 0
    | word :: _ =>
      let n ← Interpreter.readNumber word
      let n := if 128 < n then n - 128 else n
      if Signal.exists? n then
        printLine (Signal.nameOf n)
        return 0
      else fail ("invalid signal number or exit status: " ++ word)
  else
    let signal ← match given.getLast? with
      | none => pure 15
      | some (_, word) =>
        match signal? word 1 with
        | some n => pure n
        | none => fail ("invalid signal number or name: " ++ word)
    if operands.isEmpty then usage
    else operands.foldlM (fun status word => do return max status (← send signal word)) 0

/-- Changes what is run for a signal; without an action, what a system does for it. -/
def setTrap (action : Option String) (signal : Nat) : InterpreterM Unit := modify fun s =>
  let others := s.traps.filter (·.1 != signal)
  let free := s.process.ignored.filter (· != signal)
  match action with
  | none => { s with traps := others, process.ignored := free }
  | some text =>
    { s with
      traps := (signal, text) :: others
      process.ignored :=
        if text.isEmpty && signal ≠ 0 && !Signal.isFinal signal then signal :: free else free }

/-- Sets, resets or shows what is run for signals. -/
def trap (arguments : List String) : InterpreterM Nat := do
  let (_, operands) ← allOptions "" arguments
  let rec each (action : Option String) : List String → InterpreterM Nat
    | [] => return 0
    | word :: rest => do
      match signal? word 0 with
      | none =>
        inProcess (Process.complain ("trap: " ++ word ++ ": bad trap"))
        return 1
      | some n =>
        setTrap action n
        each action rest
  match operands with
  | [] =>
    let traps := (← get).traps.mergeSort fun a b => a.1 ≤ b.1
    traps.forM fun (n, text) =>
      printLine ("trap -- " ++ Interpreter.quoted text ++ " " ++
        if n = 0 then "EXIT" else Signal.nameOf n)
    return 0
  | [word] => each none [word]
  | action :: rest =>
    if (signal? action 0).isSome then each none operands
    else each (if action = "-" then none else some action) rest

/-- Says that a signal has ended a process. -/
def announce (status : ExitStatus) : InterpreterM Unit := do
  if let .signal n := status then
    -- Of an interruption whoever interrupts knows.
    if n ≠ 2 ∧ n ≠ 13 then inProcess (Process.complain (Signal.textOf n))

/-- Waits for processes in the background, which have all ended; gives the status of the last one
that is known. -/
def wait (arguments : List String) : InterpreterM Nat := do
  let (_, operands) ← allOptions "" arguments
  operands.foldlM (fun found word => do
    let n ← Interpreter.readNumber word
    let s ← get
    match s.background.lookup n with
    | none => return found
    | some status =>
      announce status
      -- That is said only once.
      let background := s.background.map fun b =>
        if b.1 = n then (n, .code status.number) else b
      modify fun s => { s with background }
      return status.number) (if operands.isEmpty then 0 else 127)

/-- Shows how much time has passed; none does. -/
def times (_arguments : List String) : InterpreterM Nat := do
  printLine "0m0.000000s 0m0.000000s"
  printLine "0m0.000000s 0m0.000000s"
  return 0

/-! ## Aliases -/

/-- An alias as it is shown. -/
def aliasText (name text : String) : String := name ++ "=" ++ Interpreter.quoted text

/-- Complains that there is no such alias. -/
def noAlias (command name : String) : InterpreterM Nat := do
  inProcess (Process.complain (command ++ ": " ++ name ++ " not found"))
  return 1

/-- Sets aliases, or shows them. -/
def setAliases (arguments : List String) : InterpreterM Nat := do
  let s ← get
  if arguments.isEmpty then
    let row := Interpreter.rowOf Interpreter.nameRows
    let shown := s.aliases.mergeSort fun a b => row a.1 ≤ row b.1
    shown.forM fun (name, text) => printLine (aliasText name text)
    return 0
  else
    arguments.foldlM (fun status word => do
      let s ← get
      match nameAndValue word with
      | ("", _) => return max status (← noAlias "alias" word)
      | (name, some text) =>
        let others := s.aliases.filter (·.1 != name)
        set { s with aliases := others ++ [(name, text)] }
        return status
      | (name, none) =>
        match s.aliases.lookup name with
        | some text =>
          printLine (aliasText name text)
          return status
        | none => return max status (← noAlias "alias" name)) 0

/-- Removes aliases. -/
def removeAliases (arguments : List String) : InterpreterM Nat := do
  let (given, operands) ← allOptions "a" arguments
  if !given.isEmpty then
    modify fun s => { s with aliases := [] }
    return 0
  else
    operands.foldlM (fun status name => do
      let s ← get
      if (s.aliases.lookup name).isNone then
        return max status (← noAlias "unalias" name)
      set { s with aliases := s.aliases.filter (·.1 != name) }
      return status) 0

/-! ## Leaving -/

/-- Ends the script. -/
def quit (arguments : List String) : InterpreterM Nat := do
  let s ← get
  let status ← numberOr (s.before.getD s.status) arguments
  Interpreter.succeed status
  throw (.ended (.code (status % 256)))

/-- Leaves a function or a file. -/
def goBack (arguments : List String) : InterpreterM Nat := do
  Interpreter.succeed (← numberOr (← get).status arguments)
  throw .back

/-- Leaves loops, as many as there are at most. -/
def leave (stop : Nat → Stop) (arguments : List String) : InterpreterM Nat := do
  let n ← numberOr 1 arguments
  if n = 0 then fail ("Illegal number: " ++ arguments.headD "")
  let n := min n (← get).loops
  if n = 0 then return 0
  Interpreter.succeed 0
  throw (stop n)

/-! ## All of them -/

/-- The commands by their names. -/
def table : List (String × (List String → InterpreterM Nat)) :=
  [(":", fun _ => return 0), ("true", fun _ => return 0), ("false", fun _ => return 1),
   ("echo", echo), ("printf", printf), ("test", test "test"), ("[", test "["), ("cd", cd),
   ("chdir", cd), ("pwd", pwd), ("umask", umask), ("export", markExported), ("readonly", markFixed),
   ("unset", unset), ("local", makeLocal), ("set", configure), ("shift", shift), ("read", read),
   ("getopts", getopts), ("kill", kill), ("trap", trap), ("wait", wait), ("times", times),
   ("exit", quit), ("return", goBack), ("break", leave .leave), ("continue", leave .again),
   ("alias", setAliases), ("unalias", removeAliases),
   ("jobs", fun _ => return 0), ("ulimit", fun _ => return 0)]

/-- The commands that run scripts or programs. -/
def running : List String := [".", "command", "eval", "exec", "hash", "type"]

/-- Whether a name is the one of a command. -/
def isKnown (name : String) : Bool := (table.lookup name).isSome || running.contains name

/-- The commands whose complaints end the script, and which keep what is assigned in front of
them. -/
def isSpecial (name : String) : Bool :=
  Script.specialCommands.contains name || name == "local"

/-- The commands that take assignments as arguments, which are not cut into fields. -/
def takesAssignments (name : String) : Bool :=
  ["export", "readonly", "local", "alias"].contains name

end Command

end LineShell
