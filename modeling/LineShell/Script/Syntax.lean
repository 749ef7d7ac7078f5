/-!
Scripts: the trees that the command language of this machine is read into.

A word is a list of pieces, as quoting and expansion work below the level of words. What a word
takes from the output of a script holds that script, so words and scripts are defined together.
-/

set_option autoImplicit false

namespace LineShell

namespace Script

/-- What a dollar sign can stand before. -/
inductive Parameter where
  /-- A variable. -/
  | variable (name : String)
  /-- An argument; number zero is the name of the script. -/
  | argument (number : Nat)
  /-- How many arguments there are. -/
  | count
  /-- All arguments, each a word of its own when quoted. -/
  | each
  /-- All arguments, one word when quoted. -/
  | joined
  /-- The status of the last command. -/
  | status
  /-- The number of the shell's process. -/
  | process
  /-- The number of the last process in the background. -/
  | background
  /-- The letters of the options that are set. -/
  | options
deriving DecidableEq, Repr

/-- The text of a parameter as it stands behind a dollar sign. -/
def Parameter.text : Parameter → String
  | .variable name => name
  | .argument number => toString number
  | .count => "#"
  | .each => "@"
  | .joined => "*"
  | .status => "?"
  | .process => "$"
  | .background => "!"
  | .options => "-"

/-- What happens to a parameter that has no value, or to one that has. -/
inductive Fallback where
  /-- The word is used instead. -/
  | use
  /-- The word is used instead, and becomes the value. -/
  | assign
  /-- The word is what the script complains of before it ends. -/
  | complain
  /-- The word is used if there is a value. -/
  | alternative
deriving DecidableEq, Repr

/-- How a file is opened. -/
inductive Opening where
  | read
  | write
  /-- Written behind its end. -/
  | append
  /-- Written even where that is to be prevented. -/
  | overwrite
  | readWrite
deriving DecidableEq, Repr

end Script

mutual

/-- A piece of a word. -/
inductive Script.Piece where
  /-- Characters that stand for themselves. -/
  | literal (text : List Char) (quoted : Bool)
  /-- The value of a parameter. -/
  | value (parameter : Script.Parameter) (quoted : Bool)
  /-- The number of characters in a value. -/
  | length (parameter : Script.Parameter) (quoted : Bool)
  /-- A value, or what takes its place; an empty value may count as none. -/
  | fallback (parameter : Script.Parameter) (kind : Script.Fallback) (alsoEmpty : Bool)
      (word : List Script.Piece) (quoted : Bool)
  /-- A value without what a pattern matches at its start or end. -/
  | trimmed (parameter : Script.Parameter) (atEnd longest : Bool) (pattern : List Script.Piece)
      (quoted : Bool)
  /-- What a script prints. -/
  | output (script : Script) (quoted : Bool)
  /-- The value of an expression. -/
  | arithmetic (expression : List Script.Piece) (quoted : Bool)
  /-- Braces that name nothing that could be expanded. -/
  | malformed

/-- A redirection of a descriptor. -/
inductive Script.Redirect where
  | file (descriptor : Nat) (opening : Script.Opening) (path : List Script.Piece)
  /-- To what the descriptor of a number is connected to; a dash disconnects. -/
  | copy (descriptor : Nat) (source : List Script.Piece)
  /-- To a text in the script. -/
  | document (descriptor : Nat) (text : List Script.Piece)

/-- A script. -/
inductive Script where
  | nothing
  /-- A command that is one program, function or builtin, with the line that it stands in. -/
  | simple (line : Nat) (assignments : List (String × List Script.Piece))
      (words : List (List Script.Piece)) (redirects : List Script.Redirect)
  | sequence (first second : Script)
  /-- The second runs if the first succeeds. -/
  | both (first second : Script)
  /-- The second runs if the first fails. -/
  | either (first second : Script)
  | negation (script : Script)
  /-- Each part reads what the part in front of it prints. -/
  | pipeline (parts : List Script)
  /-- Nobody waits for its end. -/
  | background (script : Script)
  /-- Runs in a process of its own. -/
  | subshell (line : Nat) (script : Script) (redirects : List Script.Redirect)
  | group (line : Nat) (script : Script) (redirects : List Script.Redirect)
  | branch (condition yes no : Script)
  | loop (condition : Script) (wanted : Bool) (body : Script)
  | each (line : Nat) (name : String) (words : List (List Script.Piece)) (body : Script)
  /-- The first branch runs that has a pattern for the word. -/
  | choice (line : Nat) (word : List Script.Piece)
      (branches : List (List (List Script.Piece) × Script))
  | function (name : String) (body : Script)

end

instance : Inhabited Script := ⟨.nothing⟩

namespace Script

/-- A word before expansion. -/
abbrev Word := List Piece

/-- The text of a word that is written without quotes or expansions. -/
def Word.plain? (word : Word) : Option String :=
  let text? (piece : Piece) : Option (List Char) :=
    match piece with
    | .literal text false => some text
    | _ => none
  (word.mapM text?).map fun texts => String.ofList texts.flatten

end Script

end LineShell
