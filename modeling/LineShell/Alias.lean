import LineShell.Bindings
import LineShell.Files.Path
import LineShell.Text.Cut
import LineShell.Text.Lines
import LineShell.Words
/-!
Aliases: names that stand for the first words of a command.

An alias file has one definition in a line, `name=value`, possibly behind the word `alias`. Blank
lines and comments do not count; any other line is malformed and is passed over. Names and values
are trimmed, and a value may be written in quotes.
-/

set_option autoImplicit false

namespace LineShell

namespace Alias

/-- Where the alias file is, seen from the working directory. -/
def filePath : Path := bytesOf ".files/ALIAS"

/-- What a line of an alias file is. -/
inductive Entry where
  /-- Blank, or a comment. -/
  | nothing
  | definition (name value : List Char)
  | malformed
deriving DecidableEq, Repr

/-- A text without a pair of equal quotes around it, if it has one. -/
def unquote (text : List Char) : List Char :=
  -- A lone quote is no pair: the second one is looked for behind the first.
  let inner (quote : Quote) : Option (List Char) :=
    match text with
    | c :: rest => if c = quote.char then Words.dropEnd? quote.char rest else none
    | [] => none
  ((inner .single).orElse fun _ => inner .double).getD text

/-- The word that may stand in front of a definition, with the space behind it. -/
def keyword : List Char := "alias ".toList

/-- A trimmed line without the keyword in front. -/
def dropKeyword (line : List Char) : List Char :=
  Text.trimStart ((keyword.isPrefixOf? line).getD line)

/-- **One line of an alias file.** -/
def readLine (line : List Char) : Entry :=
  let line := Text.trim line
  if line.isEmpty || line.head? == some '#' then .nothing
  else match Text.cutAt? '=' (dropKeyword line) with
    | none => .malformed
    | some (name, value) =>
      let name := Text.trim name
      if name.isEmpty then .malformed else .definition name (unquote (Text.trim value))

/-- The entries of an alias file, a line each. -/
def entriesOf (contents : String) : List Entry := (Text.lines contents.toList).map readLine

end Alias

/-- A table of aliases: names and the texts that they stand for. -/
abbrev AliasTable := Bindings

namespace AliasTable

/-- The table with one more entry. -/
def add (table : AliasTable) (entry : Alias.Entry) : AliasTable :=
  match entry with
  | .definition name value => table.insert (String.ofList name) (String.ofList value)
  | _ => table

/-- **The table of an alias file.** Of two definitions of one name the later counts. -/
def parse (contents : String) : AliasTable := (Alias.entriesOf contents).foldl add .empty

/-- The numbers of the malformed lines of an alias file, counted from one. -/
def malformedLines (contents : String) : List Nat :=
  ((Alias.entriesOf contents).zipIdx 1).filterMap fun (entry, number) =>
    if entry = .malformed then some number else none

/-- **A command with its name replaced** by the words that the name stands for, if there are any.
The words are not looked up again. -/
def expand (table : AliasTable) (words : List String) : List String :=
  match words with
  | [] => []
  | name :: rest =>
    match table.get? name with
    | none => words
    | some value =>
      match wordsOf value with
      | [] => words
      | replacement => replacement ++ rest

end AliasTable

end LineShell
