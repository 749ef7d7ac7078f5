import LineShell.Programs.Condition
import LineShell.Programs.FileTools
import LineShell.Programs.Printing
/-!
The small programs of this machine, by name.

Each takes the name that it was called by and its arguments, and gives a status. A program whose
output was lost complains about that at its end.
-/

set_option autoImplicit false

namespace LineShell

namespace Utility

open Process

/-! ## Printing -/

/-- How escapes are read in what is printed. -/
def dialect : Printing.Dialect := ⟨true, false⟩

/-- How formats are read, and how the program says what is wrong with them. -/
def manner : Printing.Manner where
  dialect := ⟨true, true⟩
  shellWords := true
  bareQuotes := false
  grid := Decimals.extended
  notNumber text := cited text ++ ": expected a numeric value"
  notWhole text := cited text ++ ": value not completely converted"
  outOfRange text := cited text ++ ": Numerical result out of range"
  badConversion text := text ++ ": invalid conversion specification"
  missingConversion := "%: invalid conversion specification"

/-- The options of a word that consists of letters for printing, if it does. -/
def echoOptions? (word : String) : Option (List Char) :=
  match word.toList with
  | '-' :: c :: rest => if (c :: rest).all fun c => "neE".toList.contains c then some (c :: rest)
    else none
  | _ => none

/-- Prints its arguments with single spaces between them. -/
def echo (_name : String) (arguments : List String) : ProcessM Nat := do
  let front := arguments.takeWhile fun word => (echoOptions? word).isSome
  let options := front.flatMap fun word => (echoOptions? word).getD []
  let text := " ".intercalate (arguments.drop front.length)
  let escapes := (options.filter (· != 'n')).getLast? == some 'e'
  let (shown, ended) := if escapes then
      Printing.unescape dialect (text.length + 1) text.toList
    else (text.toList, false)
  print (String.ofList shown)
  if !ended && !options.contains 'n' then print "\n"
  return 0

/-- Prints its arguments as a format says. -/
def printf (name : String) (arguments : List String) : ProcessM Nat := do
  match if arguments.head? = some "--" then arguments.tail else arguments with
  | [] => misuse name "missing operand" 1
  | format :: rest =>
    let printed := Printing.printAll manner format.toList (rest.length + 1) rest
    print (String.ofList printed.text)
    let faults := printed.faults ++ printed.refusal.toList
    faults.forM fun fault => complain (name ++ ": " ++ fault)
    match printed.arguments with
    | unused :: _ =>
      if !printed.ended then
        complain (name ++ ": warning: ignoring excess arguments, starting with " ++ cited unused)
    | [] => pure ()
    return if faults.isEmpty then 0 else 1

/-- Whether a path leads to a place from the root without steps that stay or lead back. -/
def isPlain (path : Path) : Bool :=
  path.isAbsolute && path.names.all fun step => step != Path.dot && step != Path.dotDot

/-- Prints the path of the directory that the process is in. -/
def pwd (name : String) (arguments : List String) : ProcessM Nat :=
  let known : List Known := [⟨'L', "logical", false⟩, ⟨'P', "physical", false⟩]
  withArguments known name arguments 1 fun given => do
    let p ← get
    if !given.operands.isEmpty then complain (name ++ ": ignoring non-option arguments")
    match p.base with
    | none =>
      refuse name "couldn't find directory entry in '..' with matching i-node"
    | some place =>
      let logical := do
        let told := octetBytes (← p.valueOf? "PWD")
        if (given.options.getLast?.map Prod.fst) == some 'L' && isPlain told &&
            (p.files.find none told).toOption == some place then some told
        else none
      printBytes (logical.getD place.path)
      print "\n"
      return 0

/-! ## Testing and waiting -/

/-- Says by its status whether a condition holds. -/
def test (name : String) (arguments : List String) : ProcessM Nat := do
  let bracket := (name.splitOn "/").getLast? == some "["
  match Condition.wordsOf? (· == "]") (if bracket then "[" else "test") arguments with
  | none =>
    complain (name ++ ": missing " ++ cited "]")
    return 2
  | some words =>
    match Condition.AsProgram.holds (← get) words with
    | .ok here => return if here then 0 else 1
    | .error text =>
      complain (name ++ ": " ++ text)
      return 2

/-- Whether a text is a time to wait: a number that may have a point and a unit. -/
def isInterval (text : String) : Bool :=
  let number := text.toList.takeWhile fun c => c.isDigit || c == '.'
  let unit := text.toList.drop number.length
  number.any Char.isDigit && decide (number.count '.' ≤ 1) &&
    (unit.isEmpty || ["s", "m", "h", "d"].contains (String.ofList unit))

/-- Waits; no time passes here. -/
def sleep (name : String) (arguments : List String) : ProcessM Nat :=
  withArguments [] name arguments 1 fun given => do
    if given.operands.isEmpty then misuse name "missing operand" 1
    else
      let bad := given.operands.filter fun text => !isInterval text
      bad.forM fun text => complain (name ++ ": invalid time interval " ++ cited text)
      if bad.isEmpty then return 0
      pointToHelp name
      return 1

/-! ## All of them -/

/-- The programs by their names. -/
def table : List (String × (String → List String → ProcessM Nat)) :=
  [("true", fun _ _ => return 0), ("false", fun _ _ => return 1), ("sleep", sleep),
   ("echo", echo), ("printf", printf), ("test", test), ("[", test), ("pwd", pwd), ("cat", cat),
   ("ls", ls), ("touch", touch), ("mkdir", mkdir), ("ln", ln), ("chmod", chmod), ("rm", rm),
   ("rmdir", rmdir), ("mv", mv)]

/-- The names of the programs. -/
def names : List String := table.map Prod.fst

/-- The programs that print at once. All others hold their output back until their end. -/
def unheld : List String := ["cat"]

/-- The status of a program that has come to its end, which is no success if output was lost. -/
def finished (name : String) (status : Nat) : ProcessM Nat := do
  match (← get).lost with
  | none => return status
  | some cause =>
    complain (name ++ ": write error: " ++ causeText cause)
    return 1

/-- Runs a program under the name that it was called by. -/
def run (utility : String) (words : List String) : ProcessM Nat := do
  match table.lookup utility with
  | none => return 127
  | some action =>
    let name := words.headD utility
    let action := action name words.tail
    finished name (← if unheld.contains utility then action else holdingOutput action)

end Utility

end LineShell
