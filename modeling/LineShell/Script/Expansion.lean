import LineShell.Script.Arithmetic
import LineShell.Script.Interpreter
import LineShell.Script.Pattern
/-!
Expanding the words of a script.

A word becomes a row of marks and characters, in which every character knows where it comes from.
Cutting the row gives the fields: separators cut in what comes from an unquoted value, and quotes
make a field even where nothing is in them. A field with an unquoted wildcard is replaced by the
paths that it matches, if there are any.
-/

set_option autoImplicit false

namespace LineShell

namespace Script

/-- Where a character of an expanded word comes from. -/
inductive Origin where
  /-- It stands in the script. -/
  | written
  /-- It stands in quotes. -/
  | quoted
  /-- It comes from a value, outside of quotes. -/
  | value
deriving DecidableEq, Repr

/-- An element of an expanded word. -/
inductive Atom where
  | char (c : Char) (origin : Origin)
  /-- There is a field here, even if it has no character. -/
  | present
  /-- The field ends here. -/
  | cut
deriving DecidableEq, Repr

/-- What a word is expanded for. -/
inductive Purpose where
  /-- The words of a command: values are cut. -/
  | words
  /-- A text or a pattern: nothing is cut. -/
  | text
  /-- The value of an assignment: nothing is cut, and a home directory may stand behind each
  colon. -/
  | assignment
deriving DecidableEq, Repr

/-- The characters of a value. -/
def atomsOf (quoted : Bool) (text : String) : List Atom :=
  if quoted then .present :: text.toList.map (.char · .quoted)
  else text.toList.map (.char · .value)

/-! ## Home directories -/

/-- The home directory of a user, who may be named. -/
def homeOf? (s : Interpreter) (user : List Char) : Option String :=
  if user.isEmpty then s.value? "HOME"
  else if user = "root".toList then some "/root"
  else none

/-- The pieces of a text in which a tilde at the start of a part stands for a home directory; `last`
says that the word ends with the text. -/
def tildePieces (s : Interpreter) (colons last : Bool) : Nat → Bool → List Char → Word
  | 0, _, _ => []
  | _, _, [] => []
  | count + 1, true, '~' :: rest =>
    let user := rest.takeWhile fun c => c != '/' && !(colons && c == ':')
    let behind := rest.drop user.length
    let home? := if behind.isEmpty && !last then none else homeOf? s user
    match home? with
    | some home => .literal home.toList true :: tildePieces s colons last count false behind
    | none => .literal ['~'] false :: tildePieces s colons last count false rest
  | count + 1, _, c :: rest =>
    .literal [c] false :: tildePieces s colons last count (colons && c == ':') rest

/-- A word with its tildes replaced. -/
def withHomes (s : Interpreter) (colons : Bool) : Bool → Word → Word
  | _, [] => []
  | start, .literal text false :: rest =>
    let behindColon := colons && text.getLast? == some ':'
    tildePieces s colons rest.isEmpty (text.length + 1) start text ++
      withHomes s colons behindColon rest
  | _, piece :: rest => piece :: withHomes s colons false rest

/-! ## Values -/

/-- The value of a parameter, if it has one. -/
def valueOf (s : Interpreter) : Parameter → Option String
  | .variable name => s.value? name
  | .argument 0 => some s.name
  | .argument (n + 1) => s.arguments[n]?
  | .count => some (toString s.arguments.length)
  | .each | .joined =>
    if s.arguments.isEmpty then none else some (s.joint.intercalate s.arguments)
  | .status => some (toString s.status)
  | .process => some (toString s.number)
  | .background => (s.background.head?).map fun b => toString b.1
  -- The letters are listed from the last one on.
  | .options => some (String.ofList s.letters.reverse)

/-- The value of a parameter, where the option may be set that there has to be one. -/
def neededValue (parameter : Parameter) : InterpreterM String := do
  let s ← get
  match valueOf s parameter with
  | some value => return value
  | none =>
    if s.letters.contains 'u' && parameter ≠ .each && parameter ≠ .joined then
      Interpreter.fail (parameter.text ++ ": parameter not set")
    return ""

/-- The value of a parameter in a word. -/
def valueAtoms (purpose : Purpose) (parameter : Parameter) (quoted : Bool) :
    InterpreterM (List Atom) := do
  let s ← get
  match parameter, quoted, purpose with
  | .each, true, .words =>
    -- Each argument is a field of its own, and without arguments there is no field.
    return ((s.arguments.map (atomsOf true)).intersperse [.cut]).flatten
  | .each, false, .words | .joined, false, .words =>
    return ((s.arguments.map (atomsOf false)).intersperse [.cut]).flatten
  | _, _, _ => return atomsOf quoted (← neededValue parameter)

/-- What a word is made of besides its own text. -/
structure Sources where
  /-- What a script prints. -/
  output : Script → InterpreterM String
  /-- The elements of a word. -/
  atoms : Purpose → Word → InterpreterM (List Atom)

/-- The text of a row. -/
def textOf (row : List Atom) : String :=
  String.ofList (row.filterMap fun atom => match atom with
    | .char c _ => some c
    | _ => none)

/-- The pattern of a row. -/
def patternOf (row : List Atom) : Pattern :=
  row.filterMap fun atom => match atom with
    | .char c origin => some (c, origin == .quoted)
    | _ => none

/-- The value of an expression; the variables that it sets are set. -/
def computed (text : String) : InterpreterM Int := do
  let s ← get
  let scope : Arithmetic.Scope := ⟨s.value?, fun name => (s.find? name).any Variable.fixed⟩
  match Arithmetic.evaluate scope text.toList with
  | .ok (n, given) =>
    given.forM fun (name, value) => Interpreter.assign name value
    return n.toInt
  | .error (.expression what) =>
    Interpreter.fail ("arithmetic expression: " ++ what ++ ": \"" ++ text ++ "\"")
  | .error (.illegal value) => Interpreter.fail ("Illegal number: " ++ value)
  | .error (.refused what) => Interpreter.fail what

/-- The elements of what stands in for a value. -/
def fallbackAtoms (sources : Sources) (purpose : Purpose) (parameter : Parameter)
    (kind : Fallback) (alsoEmpty : Bool) (word : Word) (quoted : Bool) :
    InterpreterM (List Atom) := do
  let value := valueOf (← get) parameter
  let there := match value with
    | none => false
    | some text => !(alsoEmpty && text.isEmpty)
  let other : InterpreterM (List Atom) := do
    let row ← sources.atoms purpose word
    -- What stands in the word counts as a value.
    let row := row.map fun atom => match atom with
      | .char c .written => .char c .value
      | atom => atom
    return if quoted then .present :: row else row
  match kind with
  | .use => if there then valueAtoms purpose parameter quoted else other
  | .alternative =>
    if there then other else return if quoted then [.present] else []
  | .assign =>
    if there then valueAtoms purpose parameter quoted
    else
      let text := textOf (← sources.atoms .assignment word)
      match parameter with
      | .variable name =>
        Interpreter.assign name text
        return atomsOf quoted text
      | _ => Interpreter.fail (parameter.text ++ ": bad variable name")
  | .complain =>
    if there then valueAtoms purpose parameter quoted
    else
      let text := textOf (← sources.atoms .text word)
      let standard := if alsoEmpty then "parameter not set or null" else "parameter not set"
      Interpreter.fail (parameter.text ++ ": " ++ if word.isEmpty then standard else text)

/-- The elements of a piece. -/
def pieceAtoms (sources : Sources) (purpose : Purpose) (piece : Piece) :
    InterpreterM (List Atom) := do
  match piece with
  | .literal text true => return .present :: text.map (.char · .quoted)
  | .literal text false => return text.map (.char · .written)
  | .value parameter quoted => valueAtoms purpose parameter quoted
  | .length parameter quoted =>
    return atomsOf quoted (toString (← neededValue parameter).length)
  | .fallback parameter kind alsoEmpty word quoted =>
    fallbackAtoms sources purpose parameter kind alsoEmpty word quoted
  | .trimmed parameter atEnd longest pattern quoted =>
    let value := (← neededValue parameter).toList
    let pattern := patternOf (← sources.atoms .text pattern)
    let text := if atEnd then pattern.trimEnd longest value else pattern.trimStart longest value
    return atomsOf quoted (String.ofList text)
  | .output script quoted => return atomsOf quoted (← sources.output script)
  | .arithmetic expression quoted =>
    let text := textOf (← sources.atoms .text expression)
    return atomsOf quoted (toString (← computed text))
  | .malformed => Interpreter.fail "Bad substitution"

/-- The elements of a word. -/
def wordAtoms (sources : Sources) (purpose : Purpose) (word : Word) :
    InterpreterM (List Atom) := do
  let word := withHomes (← get) (purpose = .assignment) true word
  return (← word.mapM (pieceAtoms sources purpose)).flatten

/-- Sources that go so many levels deep at most. -/
def Sources.within (output : Script → InterpreterM String) : Nat → Sources
  | 0 => ⟨output, fun _ _ => Interpreter.fail "word too deep"⟩
  | depth + 1 => ⟨output, fun purpose word => wordAtoms (within output depth) purpose word⟩

/-- How deep words stand in words at most. -/
def maxDepth : Nat := 200

/-! ## Fields -/

/-- How the cutting of a row stands. -/
structure Cutting where
  /-- The field that is being collected, its last character first. -/
  field : Option (List (Char × Bool))
  /-- The last field was ended by white space, and another separator may belong to that end. -/
  open' : Bool

/-- The fields of a row, where some characters separate. -/
def fields (separators : List Char) : Cutting → List Atom → List Pattern
  | cutting, [] => (cutting.field.map List.reverse).toList
  | cutting, atom :: rest =>
    let ended (more : List Pattern) : List Pattern :=
      match cutting.field with
      | some field => field.reverse :: more
      | none => more
    let collect (c : Char) (quoted : Bool) : List Pattern :=
      fields separators ⟨some ((c, quoted) :: cutting.field.getD []), false⟩ rest
    match atom with
    | .present => fields separators ⟨some (cutting.field.getD []), false⟩ rest
    | .cut => ended (fields separators ⟨none, false⟩ rest)
    | .char c .quoted => collect c true
    | .char c .written => collect c false
    | .char c .value =>
      if !separators.contains c then collect c false
      else if c = ' ' ∨ c = '\t' ∨ c = '\n' then
        ended (fields separators ⟨none, cutting.field.isSome || cutting.open'⟩ rest)
      else match cutting.field with
        | some _ => ended (fields separators ⟨none, false⟩ rest)
        | none =>
          -- A separator with nothing in front of it makes an empty field.
          if cutting.open' then fields separators ⟨none, false⟩ rest
          else [] :: fields separators ⟨none, false⟩ rest

/-- The words that a field stands for. -/
def wordsFor (s : Interpreter) (field : Pattern) : List String :=
  let itself := String.ofList field.text
  if s.letters.contains 'f' then [itself]
  else match field.paths s.process.files s.process.base with
    | [] => [itself]
    | found => found

/-- **The words that a word of a script stands for.** -/
def expand (output : Script → InterpreterM String) (word : Word) :
    InterpreterM (List String) := do
  let row ← (Sources.within output maxDepth).atoms .words word
  let s ← get
  return (fields s.separators ⟨none, false⟩ row).flatMap (wordsFor s)

/-- The text that a word stands for where nothing is cut. -/
def expandText (output : Script → InterpreterM String) (purpose : Purpose) (word : Word) :
    InterpreterM String := do
  return textOf (← (Sources.within output maxDepth).atoms purpose word)

/-- The pattern that a word stands for. -/
def expandPattern (output : Script → InterpreterM String) (word : Word) :
    InterpreterM Pattern := do
  return patternOf (← (Sources.within output maxDepth).atoms .text word)

end Script

end LineShell
