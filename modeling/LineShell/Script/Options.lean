import LineShell.Script.Interpreter
/-!
The options of the script language, and how they are read from words.
-/

set_option autoImplicit false

namespace LineShell

namespace Script

/-- The options, by letter and name, in the order in which they are listed. -/
def optionTable : List (Char × String) :=
  [('e', "errexit"), ('f', "noglob"), ('I', "ignoreeof"), ('i', "interactive"), ('m', "monitor"),
   ('n', "noexec"), ('s', "stdin"), ('x', "xtrace"), ('v', "verbose"), ('V', "vi"),
   ('E', "emacs"), ('C', "noclobber"), ('a', "allexport"), ('b', "notify"), ('u', "nounset"),
   ('p', "privileged")]

/-- Options that have a name and no letter; they change nothing. -/
def namedOnly : List String := ["nolog", "debug"]

/-- The letters with one of them set or not, in the order of the table. -/
def withLetter (letters : List Char) (letter : Char) (on : Bool) : List Char :=
  (optionTable.map Prod.fst).filter fun c => if c = letter then on else letters.contains c

/-- Sets the option of a letter. -/
def setLetter (letter : Char) (on : Bool) : InterpreterM Unit := do
  if (optionTable.lookup letter).isNone then
    Interpreter.fail ("Illegal option -" ++ letter.toString)
  modify fun s => { s with letters := withLetter s.letters letter on }

/-- Sets the option of a name. -/
def setNamed (name : String) (on : Bool) : InterpreterM Unit := do
  match optionTable.find? (·.2 == name) with
  | some (letter, _) => setLetter letter on
  | none =>
    if !namedOnly.contains name then
      Interpreter.fail ("Illegal option -o " ++ name)

/-- Shows what is set, for a reader or as commands. -/
def showOptions (forReader : Bool) : InterpreterM Unit := do
  let s ← get
  let rows := optionTable.map (fun (letter, name) => (name, s.letters.contains letter)) ++
    namedOnly.map (·, false)
  let line (row : String × Bool) : String :=
    if forReader then
      row.1 ++ String.ofList (List.replicate (16 - row.1.length) ' ') ++
        (if row.2 then "on" else "off")
    else (if row.2 then "set -o " else "set +o ") ++ row.1
  let lines := (if forReader then ["Current option settings"] else []) ++ rows.map line
  Interpreter.inProcess (Process.print (String.join (lines.map (· ++ "\n"))))

/-- What was found in words of options. -/
structure OptionWords where
  /-- The words behind the options. -/
  rest : List String
  /-- Whether the first of them is a script; asked for only when a script starts. -/
  isCommand : Bool
  /-- Whether two dashes ended the options. -/
  marked : Bool

/-- Sets the options of the letters of one word; gives the words that are left. -/
def readLetters (start on : Bool) : List Char → List String → InterpreterM (List String × Bool)
  | [], words => return (words, false)
  | 'o' :: more, words => do
    match words with
    | [] => showOptions on
    | name :: _ => setNamed name on
    readLetters start on more words.tail
  | c :: more, words => do
    if start && c = 'c' then
      let (words, _) ← readLetters start on more words
      return (words, true)
    if !(start && c = 'l') then setLetter c on
    readLetters start on more words

/-- **Reads options** from the words in front. -/
def readOptions (start : Bool) : Nat → List String → InterpreterM OptionWords
  | 0, words => return ⟨words, false, false⟩
  | _, [] => return ⟨[], false, false⟩
  | count + 1, word :: rest => do
    match word.toList with
    | ['-'] =>
      if !start then
        modify fun s => { s with letters := s.letters.filter fun c => c != 'x' && c != 'v' }
      return ⟨rest, false, false⟩
    | ['-', '-'] => return ⟨rest, false, true⟩
    | sign :: letters =>
      if sign = '-' ∨ sign = '+' then
        let (words, isCommand) ← readLetters start (sign = '-') letters rest
        let more ← readOptions start count words
        return { more with isCommand := isCommand || more.isCommand }
      else return ⟨word :: rest, false, false⟩
    | [] => return ⟨word :: rest, false, false⟩

end Script

end LineShell
