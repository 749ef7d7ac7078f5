import LineShell.Programs.Arguments
/-!
Conditions: what files, texts and numbers are asked for in tests.

Two readings of a test are known. A script reads it by looking one word ahead, and takes what it
does not understand for a text; the program of the same name goes by the number of words first. They
agree on every test that makes sense, and complain differently about the others.
-/

set_option autoImplicit false

namespace LineShell

namespace Condition

/-! ## Questions -/

/-- Whether the node that a path leads to is as asked; a link at the end is not followed if the
question is about links. -/
def holdsOf (p : Process) (letter : Char) (path : String) : Bool :=
  let rightsOf : Node → Rights
    | .file _ rights => rights
    | .dir _ rights => rights
    | _ => .plain
  if letter = 'h' ∨ letter = 'L' then
    if Path.endsInSlash (octetBytes path) then false
    else match p.files.entry p.base (octetBytes path) with
      | .ok (_, .link _) => true
      | _ => false
  else match p.look path with
    | .error _ => false
    | .ok (_, node) =>
      match letter with
      | 'e' | 'O' | 'G' => true
      | 'f' => match node with | .file .. => true | _ => false
      | 'd' => node.isDir
      | 'c' => match node with | .device _ => true | _ => false
      | 'r' => (rightsOf node).read
      | 'w' => (rightsOf node).write
      | 'x' => (rightsOf node).pass
      | 's' => match node with
        | .file data _ => !data.isEmpty
        | .dir .. => true
        | _ => false
      | _ => false

/-- The letters of questions about files. -/
def fileLetters : List Char := "rwxefdcbpugksSOGhL".toList

/-- An operator between two operands. -/
inductive Operator where
  | same
  | different
  /-- Texts, in the order of their bytes. -/
  | textBefore
  | textBehind
  | number (relation : Int → Int → Bool)
  /-- Files, by the time of their last change. -/
  | newer
  | older
  | sameFile

/-- The operators by their names. -/
def operator? (name : String) : Option Operator :=
  match name with
  | "=" => some .same
  | "!=" => some .different
  | "<" => some .textBefore
  | ">" => some .textBehind
  | "-eq" => some (.number fun a b => a == b)
  | "-ne" => some (.number fun a b => a != b)
  | "-lt" => some (.number fun a b => decide (a < b))
  | "-le" => some (.number fun a b => decide (a ≤ b))
  | "-gt" => some (.number fun a b => decide (b < a))
  | "-ge" => some (.number fun a b => decide (b ≤ a))
  | "-nt" => some .newer
  | "-ot" => some .older
  | "-ef" => some .sameFile
  | _ => none

/-- Whether both of two paths lead to the same place. -/
def isSameFile (p : Process) (first second : String) : Bool :=
  match p.look first, p.look second with
  | .ok (a, _), .ok (b, _) => a == b
  | _, _ => false

/-- What an operator says of its operands; `alone` says that a file counts as newer than one that
does not exist. Files that both exist count as equally old. -/
def answer (p : Process) (alone : Bool) (integer : String → Except String Int)
    (operator : Operator) (first second : String) : Except String Bool := do
  let exists? (path : String) : Bool := (p.look path).toOption.isSome
  match operator with
  | .same => return first == second
  | .different => return first != second
  | .textBefore => return decide (first < second)
  | .textBehind => return decide (second < first)
  | .number relation => return relation (← integer first) (← integer second)
  | .newer => return alone && exists? first && !exists? second
  | .older => return alone && !exists? first && exists? second
  | .sameFile => return isSameFile p first second

/-! ## Tests in scripts -/

namespace InScript

/-- A number within what 64 bits hold. -/
def integer (text : String) : Except String Int :=
  match Utility.integer? text with
  | some n =>
    if -9223372036854775808 ≤ n ∧ n ≤ 9223372036854775807 then .ok n
    else .error ("Illegal number: " ++ text)
  | none => .error ("Illegal number: " ++ text)

/-- What a word is, as far as the words behind it tell. -/
inductive Token where
  | nothing
  | operand
  | question (letter : Char)
  | operator (operator : Operator)
  | no
  | both
  | either
  | opening
  | closing

/-- The letter of a question about one operand. -/
def question? (word : String) : Option Char :=
  match word.toList with
  | ['-', c] => if c = 'n' ∨ c = 'z' ∨ c = 't' ∨ fileLetters.contains c then some c else none
  | _ => none

/-- The token that some words start with. A question that nothing follows is an operand, and so is
one in front of an operator with two operands. -/
def token (words : List String) : Token :=
  match words with
  | [] => .nothing
  | word :: rest =>
    match question? word with
    | some letter =>
      match rest with
      | [] => .operand
      | next :: _ :: _ => if (operator? next).isSome then .operand else .question letter
      | _ => .question letter
    | none =>
      match word with
      | "!" => .no
      | "-a" => .both
      | "-o" => .either
      | "(" => if rest.isEmpty then .operand else .opening
      | ")" => .closing
      | _ =>
        match operator? word with
        | some operator => .operator operator
        | none => .operand

/-- The parts of a test, by falling strength of what binds them. -/
inductive Level where
  | either
  | both
  | negated
  | primary

/-- What a test says that starts with some words, and the words from the last one that it used
on. -/
def read (p : Process) : Nat → Level → List String → Except String (Bool × List String)
  | 0, _, words => .ok (false, words)
  | count + 1, .either, words => do
    let (here, words) ← read p count .both words
    match token words.tail with
    | .either =>
      let (there, words) ← read p count .either (words.drop 2)
      return (here || there, words)
    | _ => return (here, words)
  | count + 1, .both, words => do
    let (here, words) ← read p count .negated words
    match token words.tail with
    | .both =>
      let (there, words) ← read p count .both (words.drop 2)
      return (here && there, words)
    | _ => return (here, words)
  | count + 1, .negated, words =>
    match token words with
    | .no =>
      if words.tail.isEmpty then .ok (true, words)
      else do
        let (here, words) ← read p count .negated words.tail
        return (!here, words)
    | _ => read p count .primary words
  | count + 1, .primary, words => do
    match token words, words with
    | .nothing, _ => return (false, words)
    | .opening, _ =>
      match token words.tail with
      | .closing => return (false, words.tail)
      | _ =>
        let (here, words) ← read p count .either words.tail
        match token words.tail with
        | .closing => return (here, words.tail)
        | _ => throw "closing paren expected"
    | .question letter, _ :: operand :: _ =>
      let here ← match letter with
        | 'n' => pure !operand.isEmpty
        | 'z' => pure operand.isEmpty
        | 't' => do
          -- Nothing here is a terminal.
          let _ ← integer operand
          pure false
        | letter => pure (holdsOf p letter operand)
      return (here, words.tail)
    | _, word :: rest =>
      match token rest, rest with
      | .operator operator, name :: behind =>
        match behind with
        | [] => throw (name ++ ": argument expected")
        | second :: _ =>
          return (← answer p false integer operator word second, behind)
      | _, _ => return (!word.isEmpty, words)
    | _, [] => return (false, words)

/-- What words say that have to be one test. -/
def whole (p : Process) (words : List String) : Except String Bool := do
  let (here, rest) ← read p (8 * words.length + 8) .either words
  match rest with
  | word :: _ :: _ =>
    throw (if word.isEmpty then "unexpected operator" else word ++ ": unexpected operator")
  | _ => return here

/-- **What a test in a script says.** Three and four words have a fixed meaning where one fits. -/
def holds (p : Process) (words : List String) : Except String Bool :=
  match words with
  | [] => .ok false
  | [first, name, second] =>
    match operator? name with
    | some operator => answer p false integer operator first second
    | none =>
      if first = "(" ∧ second = ")" then whole p [name]
      else if first = "!" then (whole p [name, second]).map (!·)
      else whole p words
  | [first, second, third, fourth] =>
    if first = "(" ∧ fourth = ")" then whole p [second, third]
    else if first = "!" then
      -- Of two negations in front of two words, only one counts.
      if second = "!" ∧ (operator? third).isNone then holds p [second, third, fourth]
      else (holds p [second, third, fourth]).map (!·)
    else whole p words
  | words => whole p words

end InScript

/-! ## Tests as programs -/

namespace AsProgram

open Utility

/-- A number of any size. -/
def integer (text : String) : Except String Int :=
  match integer? text with
  | some n => .ok n
  | none => .error ("invalid integer " ++ cited text)

/-- The operators of the program; texts are not put in order, and two equals signs are one. -/
def operator? (name : String) : Option Operator :=
  match name with
  | "==" => some .same
  | "<" | ">" => none
  | name => Condition.operator? name

/-- What is left of the words, and the last word that there was. -/
structure Source where
  rest : List String
  last : String

/-- A step of reading a test. -/
abbrev Step := EStateM String Source

/-- Something should follow the last word. -/
def missing {α : Type} : Step α := do
  throw ("missing argument after " ++ cited (← get).last)

/-- The next word. -/
def take : Step String := do
  match (← get).rest with
  | [] => missing
  | word :: rest =>
    modify fun s => { s with rest }
    return word

/-- A question about the next word. -/
def question (p : Process) (word : String) : Step Bool := do
  match word.toList with
  | ['-', c] =>
    if c = 'n' ∨ c = 'z' ∨ c = 't' ∨ c = 'N' ∨ fileLetters.contains c then
      let operand ← take
      match c with
      | 'n' => return !operand.isEmpty
      | 'z' => return operand.isEmpty
      | 't' =>
        match integer operand with
        | .ok _ => return false
        | .error text => throw text
      | c => return holdsOf p c operand
    else throw (cited word ++ ": unary operator expected")
  | _ => missing

/-- A comparison of the next word and the one behind its operator. -/
def comparison (p : Process) : Step Bool := do
  let first ← take
  let name ← take
  let second ← take
  match operator? name with
  | none => throw (cited name ++ ": binary operator expected")
  | some operator =>
    match answer p true integer operator first second with
    | .ok here => return here
    | .error text => throw text

/-- Whether a word looks like a question. -/
def isQuestion (word : String) : Bool :=
  match word.toList with
  | ['-', _] => true
  | _ => false

/-- Whether a word is an operator between two operands. -/
def isOperator (word : String) : Bool := (operator? word).isSome

mutual

/-- A test of so many words. -/
def bySize (p : Process) : Nat → Nat → Step Bool
  | 0, _ => throw "test too deep"
  | depth + 1, size => do
    match size, (← get).rest with
    | 1, _ => return !(← take).isEmpty
    | 2, words => two words
    | 3, words => three depth words
    | 4, first :: words =>
      if first = "!" then
        let _ ← take
        return !(← three depth words)
      else if first = "(" ∧ words[2]? = some ")" then
        let _ ← take
        let here ← two words
        let _ ← take
        return here
      else alternatives p depth
    | _, _ => alternatives p depth
where
  /-- A test of two words. -/
  two (words : List String) : Step Bool := do
    let first := words.headD ""
    if first = "!" then
      let _ ← take
      return (← take).isEmpty
    else if isQuestion first then
      let word ← take
      question p word
    else missing
  /-- A test of three words. -/
  three (depth : Nat) (words : List String) : Step Bool := do
    match words with
    | first :: second :: third :: _ =>
      if isOperator second then comparison p
      else if first = "!" then
        let _ ← take
        return !(← two words.tail)
      else if first = "(" ∧ third = ")" then
        let _ ← take
        let here := !(← take).isEmpty
        let _ ← take
        return here
      else if second = "-a" ∨ second = "-o" then alternatives p depth
      else throw (cited second ++ ": binary operator expected")
    | _ => alternatives p depth

/-- Tests of which one has to hold. -/
def alternatives (p : Process) : Nat → Step Bool
  | 0 => throw "test too deep"
  | depth + 1 => do
    let here ← together p depth
    if (← get).rest.head? = some "-o" then
      let _ ← take
      let there ← alternatives p depth
      return here || there
    else return here

/-- Tests that all have to hold. -/
def together (p : Process) : Nat → Step Bool
  | 0 => throw "test too deep"
  | depth + 1 => do
    let here ← term p depth
    if (← get).rest.head? = some "-a" then
      let _ ← take
      let there ← together p depth
      return here && there
    else return here

/-- A test without alternatives. -/
def term (p : Process) : Nat → Step Bool
  | 0 => throw "test too deep"
  | depth + 1 => do
    match (← get).rest with
    | [] => missing
    | "!" :: rest =>
      let _ ← take
      if rest.isEmpty then missing
      return !(← term p depth)
    | "(" :: rest =>
      let _ ← take
      if rest.isEmpty then missing
      -- A closing parenthesis further away does not say how long the test is.
      let inner := rest.tail.takeWhile (· != ")")
      let size := if 3 < inner.length then rest.length else inner.length + 1
      let here ← bySize p depth size
      match (← get).rest with
      | [] => throw (cited ")" ++ " expected")
      | word :: _ =>
        if word ≠ ")" then throw (cited ")" ++ " expected, found " ++ cited word)
        let _ ← take
        return here
    | first :: rest =>
      if 2 ≤ rest.length && isOperator (rest.headD "") then comparison p
      else if isQuestion first then
        let word ← take
        question p word
      else return !(← take).isEmpty

end

/-- **What a test says that is run as a program.** -/
def holds (p : Process) (words : List String) : Except String Bool :=
  if words.isEmpty then .ok false
  else
    let step : Step Bool := do
      let here ← bySize p (8 * words.length + 8) words.length
      match (← get).rest with
      | [] => return here
      | word :: _ => throw ("extra argument " ++ cited word)
    match step.run ⟨words, words.getLast?.getD ""⟩ with
    | .ok here _ => .ok here
    | .error text _ => .error text

end AsProgram

/-- The words of a test between its name and, for a name that is a bracket, a word that closes
it. -/
def wordsOf? (closes : String → Bool) (name : String) (arguments : List String) :
    Option (List String) :=
  if name = "[" then
    if arguments.getLast?.any closes then some arguments.dropLast else none
  else some arguments

end Condition

end LineShell
