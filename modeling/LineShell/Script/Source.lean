import LineShell.Script.Syntax
/-!
The text of a script while it is being read: what is left of it, the line that the reader is in, and
the token that was looked at and not taken.
-/

set_option autoImplicit false

namespace LineShell

namespace Script

/-- A token of a script. -/
inductive Token where
  | word (pieces : Word)
  /-- An operator; a line break is one. -/
  | operator (text : String)
  /-- The start of a redirection: a descriptor and an arrow. -/
  | arrow (descriptor : Option Nat) (text : String)
  | endOfText

/-- Why a text is no script: the line where that shows, and what is wrong there. -/
structure Fault where
  line : Nat
  text : String
deriving DecidableEq, Repr

/-- What is left of a text. -/
structure Source where
  rest : List Char
  line : Nat
  /-- How many lines of documents behind this line have been taken out of the text. -/
  taken : Nat
  pushed : Option Token
  /-- Texts that are read in the place of the first word of a command. -/
  aliases : List (String × String)
  /-- The aliases whose texts are being read, and how much is left behind each of them. -/
  active : List (String × Nat)

/-- The source of a text whose first line has a number. -/
def Source.ofText (text : String) (line : Nat) : Source := ⟨text.toList, line, 0, none, [], []⟩

/-- The text behind the line that is being read, where all that is behind the lines before is
given. -/
def Source.behindLine (s : Source) (text : List Char) : List Char :=
  -- The texts of aliases stand in no line.
  let rest := s.active.foldl (fun rest (_, left) => rest.drop (rest.length - left)) s.rest
  if (text.take (text.length - rest.length)).getLast? = some '\n' then rest
  else (rest.dropWhile (· ≠ '\n')).tail

/-- A reader of scripts. -/
abbrev ReaderM := EStateM Fault Source

namespace ReaderM

/-- Refuses the text. -/
def refuse {α : Type} (text : String) : ReaderM α := do
  throw ⟨(← get).line, "Syntax error: " ++ text⟩

/-- Goes on behind some of the text. -/
def moveTo (rest : List Char) : ReaderM Unit := modify fun s => { s with rest }

/-- Goes on behind a line break within a word. -/
def breakTo (rest : List Char) : ReaderM Unit :=
  modify fun s => { s with rest, line := s.line + 1 }

/-- Goes on behind a line break between words, where the lines behind it may have been taken out. -/
def breakLine (rest : List Char) : ReaderM Unit :=
  modify fun s => { s with rest, line := s.line + 1 + s.taken, taken := 0 }

/-- Steps over the breaks that a backslash takes away. -/
def skipContinuations : ReaderM Unit := do
  let s ← get
  let rec strip (breaks : Nat) : List Char → List Char × Nat
    | '\\' :: '\n' :: rest => strip (breaks + 1) rest
    | rest => (rest, breaks)
  let (rest, breaks) := strip 0 s.rest
  set { s with rest, line := s.line + breaks }

/-- The next character. -/
def peek : ReaderM (Option Char) := do
  skipContinuations
  return (← get).rest.head?

/-- Takes the next character. -/
def next : ReaderM (Option Char) := do
  let c ← peek
  modify fun s => { s with rest := s.rest.tail }
  return c

/-- Takes the next character if it is the one that is looked for. -/
def accept (c : Char) : ReaderM Bool := do
  if (← peek) = some c then
    modify fun s => { s with rest := s.rest.tail }
    return true
  else return false

/-- Leaves a token for the next who asks. -/
def push (token : Token) : ReaderM Unit := modify fun s => { s with pushed := some token }

end ReaderM

/-! ## Characters and names -/

/-- Whether a character ends a word. -/
def endsWord (c : Char) : Bool := " \t\n;&|<>()".toList.contains c

/-- Whether a character may stand in the name of a variable. -/
def isNameChar (c : Char) : Bool := c.isAlphanum || c == '_'

/-- Whether a text is the name of a variable. -/
def isName (text : List Char) : Bool :=
  match text with
  | [] => false
  | c :: _ => !c.isDigit && text.all isNameChar

/-- The number that decimal digits spell. -/
def decimal (text : List Char) : Nat :=
  text.foldl (fun n c => 10 * n + (c.toNat - '0'.toNat)) 0

/-- The words that stand for themselves only where no command can start. -/
def reservedWords : List String :=
  ["!", "case", "do", "done", "elif", "else", "esac", "fi", "for", "if", "in", "then", "until",
   "while", "\x7b", "\x7d"]

namespace Token

/-- The reserved word that a token is. -/
def reserved? (token : Token) : Option String :=
  match token with
  | .word pieces =>
    match Word.plain? pieces with
    | some text => if reservedWords.contains text then some text else none
    | none => none
  | _ => none

/-- Whether a token is an operator. -/
def isOperator (token : Token) (text : String) : Bool :=
  match token with
  | .operator t => t == text
  | _ => false

/-- A token as a complaint names it. -/
def name (token : Token) : String :=
  match token with
  | .operator "\n" => "newline"
  | .operator text => "\"" ++ text ++ "\""
  | .arrow .. => "redirection"
  | .endOfText => "end of file"
  | .word _ =>
    match token.reserved? with
    | some text => "\"" ++ text ++ "\""
    | none => "word"

end Token

/-- Refuses a token, where another one may have been expected. -/
def unexpected {α : Type} (token : Token) (expected : Option String) : ReaderM α :=
  ReaderM.refuse (token.name ++ " unexpected" ++ match expected with
    | some text => " (expecting \"" ++ text ++ "\")"
    | none => "")

/-! ## Aliases -/

/-- Puts the text of an alias in the place of a word that was just read, if the word is one; an
alias does not stand for itself in its own text. -/
def replaceAlias (word : Word) : ReaderM Bool := do
  let s ← get
  match Word.plain? word with
  | none => return false
  | some name =>
    match s.aliases.lookup name with
    | none => return false
    | some text =>
      if s.active.any fun (other, behind) => other == name && behind ≤ s.rest.length then
        return false
      set { s with
        rest := text.toList ++ s.rest
        active := (name, s.rest.length) :: s.active }
      return true

/-! ## Documents -/

/-- A text cut behind the line break that ends its first line; a quoted break ends no line. -/
def cutLine (quote : Option Char) (atStart : Bool) :
    List Char → List Char × Option (List Char)
  | [] => ([], none)
  | '\\' :: c :: rest =>
    let (line, behind) := cutLine quote false rest
    ('\\' :: c :: line, behind)
  | c :: rest =>
    if c = '\n' ∧ quote = none then ([], some rest)
    else if c = '#' ∧ quote = none ∧ atStart then
      -- Nothing is quoted in a comment.
      let comment := (c :: rest).takeWhile (· != '\n')
      (comment, match (c :: rest).drop comment.length with
        | [] => none
        | _ :: behind => some behind)
    else
      let quote' := match quote with
        | none => if c = '\'' ∨ c = '"' then some c else none
        | some q => if c = q then none else some q
      let (line, behind) := cutLine quote' (endsWord c) rest
      (c :: line, behind)

/-- The text of the lines up to one that is a given mark, and the lines behind that. Tabs in front
of a line may not count. -/
def documentLines (mark : List Char) (tabs : Bool) (lines : List (List Char)) :
    List Char × List (List Char) :=
  let plain (line : List Char) : List Char := if tabs then line.dropWhile (· == '\t') else line
  let body := lines.takeWhile fun line => plain line != mark
  let text := ['\n'].intercalate (body.map plain)
  -- A document that nothing ends goes up to the end of the script.
  (if body.length < lines.length ∧ body ≠ [] then text ++ ['\n'] else text,
    lines.drop (body.length + 1))

/-- Takes the document out of the text that belongs to a mark in this line: the number of its first
line, and the document. -/
def takeDocument (mark : List Char) (tabs : Bool) : ReaderM (Nat × List Char) := do
  let s ← get
  let first := s.line + 1 + s.taken
  match cutLine none false s.rest with
  | (_, none) => return (first, [])
  | (line, some behind) =>
    let (body, rest) := documentLines mark tabs (behind.splitOn '\n')
    let lines := behind.count '\n' - (['\n'].intercalate rest).count '\n'
    set { s with
      rest := line ++ '\n' :: ['\n'].intercalate rest
      taken := s.taken + lines }
    return (first, body)

end Script

end LineShell
