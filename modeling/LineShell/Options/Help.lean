import LineShell.Options
/-!
The help text of a command: a usage line, the description, and a table of what the command takes.

The table has two columns. The second one starts in column twenty and is filled to a width of
eighty; an entry whose name reaches into it goes on in the next line.
-/

set_option autoImplicit false

namespace LineShell

namespace Help

/-! ## Table -/

/-- The column in which descriptions start. -/
def descriptionColumn : Nat := 20

/-- The width of a line. -/
def width : Nat := 80

/-- A line filled with spaces up to the second column. -/
def indented (line : String) : String :=
  line ++ String.ofList (List.replicate (descriptionColumn - line.length) ' ')

/-- Words put on lines, from a line that holds some text already; a word that does not fit starts a
new line. -/
def fill (line : String) : List String → List String
  | [] => [line]
  | word :: rest =>
    if width < line.length + word.length + 1 then line :: fill (indented "" ++ word) rest
    else fill (line ++ " " ++ word) rest

/-- The lines of a table entry. -/
def entry (name description : String) : List String :=
  let start := "  " ++ name
  let words := (description.toList.splitOn ' ').map String.ofList
  match words with
  | [] => [start]
  | first :: rest =>
    if start.length < descriptionColumn then fill (indented start ++ first) rest
    else start :: fill (indented "" ++ first) rest

/-! ## Text -/

/-- An option in the table. -/
def optionEntry (o : OptionSpec) : List String :=
  let name := match o.shortWord? with
    | some short => short ++ ", " ++ o.longWord
    | none => o.longWord
  entry name o.description

/-- An option in the usage line. -/
def optionUsage (o : OptionSpec) : String :=
  let name := o.shortWord?.getD o.longWord
  if o.kind = .switch then " [" ++ name ++ "]"
  else " [" ++ name ++ " <" ++ o.long ++ ">]"

/-- The other words of a command in the usage line. -/
def positionalUsage : Positional → String
  | .absent => ""
  | .single name _ => " [--] [<" ++ name ++ ">]"
  | .greedy name => " [" ++ name ++ "...]"

/-- The part of the table for the other words of a command. -/
def positionalTable : Positional → List String
  | .single name description => "" :: "Positional Arguments:" :: entry name description
  | _ => []

/-- The lines of a command's help text. -/
def lines (command : String) (g : Grammar) : List String :=
  let usage := "Usage: " ++ command ++ String.join (g.options.map optionUsage) ++
    positionalUsage g.positional
  [usage, "", g.description] ++ positionalTable g.positional ++ ["", "Options:"] ++
    g.options.flatMap optionEntry ++ entry "--help, help" "display usage information"

/-- **The help text of a command,** without an end of line behind it. -/
def text (command : String) (g : Grammar) : String := "\n".intercalate (lines command g)

end Help

end LineShell
