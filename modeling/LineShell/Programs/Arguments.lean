import LineShell.Programs.Process
import LineShell.Text.Cut
/-!
How the small programs of this machine read their arguments, and how they complain.

Options are single letters, several of which may share a word, or names behind two dashes, which may
be cut short as long as they are clear. They may stand anywhere in front of a word of two dashes.
-/

set_option autoImplicit false

namespace LineShell

namespace Utility

open Process

/-! ## Quoting -/

/-- Characters that have to be quoted wherever they stand. -/
def specialChars : List Char := " !\"$&()*;<=>?[^\x60|:\\'\t\n".toList

/-- Whether a character is printed as it is. -/
def isPrintable (c : Char) : Bool := 32 ≤ c.toNat && c.toNat ≤ 126

/-- A number in so many octal digits. -/
def octalDigits (count n : Nat) : String :=
  let digits := Nat.toDigits 8 n
  String.ofList (List.replicate (count - digits.length) '0' ++ digits)

/-- A character that cannot be printed, as it is written between quotes. -/
def escapeOf (c : Char) : String :=
  match c.toNat with
  | 7 => "\\a"
  | 8 => "\\b"
  | 9 => "\\t"
  | 10 => "\\n"
  | 11 => "\\v"
  | 12 => "\\f"
  | 13 => "\\r"
  | n => "\\" ++ octalDigits 3 n

/-- A text in single quotes, where what cannot be printed is written as escapes. -/
def singleQuoted (text : List Char) : String :=
  -- Runs of one kind share their quotes.
  let runs := text.splitBy fun a b => isPrintable a == isPrintable b
  let parts := runs.map fun run =>
    if run.all isPrintable then
      String.join (run.map fun c => if c = '\'' then "'\\''" else c.toString)
    else "'$'" ++ String.join (run.map escapeOf) ++ "''"
  let body := String.join parts
  -- Quotes around nothing at the end are left out.
  let whole := "'" ++ body ++ "'"
  if (text.getLast?.map isPrintable) = some false then (whole.dropEnd 2).toString else whole

/-- A name in quotes, as it stands in a complaint. -/
def quoted (name : String) : String :=
  let text := name.toList
  if text.contains '\'' && !text.any (fun c => "\"$\x60\\!".toList.contains c) &&
      text.all isPrintable then "\"" ++ name ++ "\""
  else singleQuoted text

/-- A text in quotes, as it stands in a complaint about a word that is not the name of a file. -/
def cited (text : String) : String :=
  let body := text.toList.map fun c =>
    if c = '\'' then "\\'" else if c = '\\' then "\\\\"
    else if isPrintable c then c.toString else escapeOf c
  "'" ++ String.join body ++ "'"

/-- A name as it stands in a complaint, in quotes if it needs them. -/
def quotedIfNeeded (name : String) : String :=
  let text := name.toList
  let first := text.head?
  if text.isEmpty || text.any (fun c => specialChars.contains c || !isPrintable c) ||
      first == some '~' || first == some '#' || text == ['\x7b'] || text == ['\x7d'] then
    quoted name
  else name

/-! ## Options -/

/-- An option that a program knows. -/
structure Known where
  /-- What the option is called inside of the program. -/
  key : Char
  /-- Its name behind two dashes; empty if it has none. -/
  long : String
  /-- Whether a value has to follow. -/
  takesValue : Bool

/-- Options without values and without names. -/
def letters (keys : String) : List Known := keys.toList.map fun key => ⟨key, "", false⟩

/-- What was read from arguments. -/
structure Given where
  options : List (Char × String)
  operands : List String

/-- Whether an option was given. -/
def Given.has (given : Given) (key : Char) : Bool := given.options.any (·.1 == key)

/-- The last value that was given for an option. -/
def Given.value? (given : Given) (key : Char) : Option String :=
  (given.options.reverse.find? (·.1 == key)).map Prod.snd

/-- The options that a word of letters gives, and how many of the words behind it are their
values. -/
def readLetters (known : List Known) (next : Option String) :
    List Char → Except String (List (Char × String) × Nat)
  | [] => .ok ([], 0)
  | c :: rest =>
    match known.find? (·.key == c) with
    | none => .error ("invalid option -- '" ++ c.toString ++ "'")
    | some option =>
      if !option.takesValue then do
        let (more, used) ← readLetters known next rest
        return ((c, "") :: more, used)
      else if !rest.isEmpty then .ok ([(c, String.ofList rest)], 0)
      else match next with
        | some value => .ok ([(c, value)], 1)
        | none => .error ("option requires an argument -- '" ++ c.toString ++ "'")

/-- The key of the options that every program knows by name, none of which is given here. -/
def commonKey : Char := '\x00'

/-- The names that every program knows. -/
def common : List Known := [⟨commonKey, "help", false⟩, ⟨commonKey, "version", false⟩]

/-- The option that a name gives, and how many of the words behind it are its value. -/
def readName (known : List Known) (next : Option String) (word : List Char) :
    Except String ((Char × String) × Nat) :=
  let (name, value?) := match Text.cutAt? '=' word with
    | some (name, value) => (name, some (String.ofList value))
    | none => (word, none)
  let fitting := (known ++ common).filter fun option =>
    !option.long.isEmpty && name.isPrefixOf option.long.toList
  let found := match fitting.find? (·.long.toList == name), fitting with
    | some option, _ => some option
    | none, [option] => some option
    -- Several names of one option are no choice.
    | none, option :: others => if others.all (·.key == option.key) then some option else none
    | none, [] => none
  let isOwn := fitting.any (·.key != commonKey)
  match found.filter (·.key != commonKey), value?, next with
  | none, _, _ =>
    let given := "option '--" ++ String.ofList word ++ "'"
    if !isOwn then .error ("unrecognized " ++ given)
    else .error (given ++ " is ambiguous; possibilities:" ++
      String.join (fitting.map fun option => " '--" ++ option.long ++ "'"))
  | some option, some value, _ =>
    if option.takesValue then .ok ((option.key, value), 0)
    else .error ("option '--" ++ option.long ++ "' doesn't allow an argument")
  | some option, none, next =>
    if !option.takesValue then .ok ((option.key, ""), 0)
    else match next with
      | some value => .ok ((option.key, value), 1)
      | none => .error ("option '--" ++ option.long ++ "' requires an argument")

/-- Reads arguments; `mixed` says that options may stand behind operands. -/
def readWords (known : List Known) (mixed : Bool) : Nat → List String → Except String Given
  | 0, words => .ok ⟨[], words⟩
  | _, [] => .ok ⟨[], []⟩
  | count + 1, word :: rest =>
    match word.toList with
    | ['-', '-'] => .ok ⟨[], rest⟩
    | '-' :: '-' :: name => do
      let (option, used) ← readName known rest.head? name
      let given ← readWords known mixed count (rest.drop used)
      return { given with options := option :: given.options }
    | '-' :: c :: more => do
      let (options, used) ← readLetters known rest.head? (c :: more)
      let given ← readWords known mixed count (rest.drop used)
      return { given with options := options ++ given.options }
    | _ =>
      if mixed then do
        let given ← readWords known mixed count rest
        return { given with operands := word :: given.operands }
      else .ok ⟨[], word :: rest⟩

/-- Reads arguments in which options may stand anywhere. -/
def readArguments (known : List Known) (words : List String) : Except String Given :=
  readWords known true (words.length + 1) words

/-! ## Complaints -/

/-- Points to where more is said. -/
def pointToHelp (name : String) : ProcessM Unit :=
  complain ("Try '" ++ name ++ " --help' for more information.")

/-- Complains about arguments; the status is the one of a program that was used wrongly. -/
def misuse (name text : String) (status : Nat) : ProcessM Nat := do
  complain (name ++ ": " ++ text)
  pointToHelp name
  return status

/-- Runs a program on its arguments, if they can be read. -/
def withArguments (known : List Known) (name : String) (words : List String) (status : Nat)
    (action : Given → ProcessM Nat) : ProcessM Nat := do
  match readArguments known words with
  | .ok given => action given
  | .error text => misuse name text status

/-- The status of several steps: the greatest of theirs. -/
def forAll (operands : List String) (step : String → ProcessM Nat) : ProcessM Nat :=
  operands.foldlM (fun status operand => do return max status (← step operand)) 0

/-- A whole number of decimal digits. -/
def natural? (text : String) : Option Nat :=
  let digits := text.toList
  if digits.isEmpty || !digits.all Char.isDigit then none
  else some (digits.foldl (fun n c => 10 * n + (c.toNat - '0'.toNat)) 0)

/-- White space around a number. -/
def isSpace (c : Char) : Bool := " \t\n\x0b\x0c\r".toList.contains c

/-- A whole number with a sign, and white space around it. -/
def integer? (text : String) : Option Int :=
  let trimmed := ((text.toList.dropWhile isSpace).reverse.dropWhile isSpace).reverse
  match trimmed with
  | '-' :: digits => (natural? (String.ofList digits)).map fun n => -(n : Int)
  | '+' :: digits => (natural? (String.ofList digits)).map fun n => (n : Int)
  | digits => (natural? (String.ofList digits)).map fun n => (n : Int)

end Utility

end LineShell
