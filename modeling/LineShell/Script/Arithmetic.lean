import LineShell.Script.Source
/-!
Expressions of whole numbers in scripts.

Numbers are 64 bits wide and wrap around. An expression is read and computed in one go, operator by
operator with rising strength; a part whose value is not needed is read without being computed, so
it changes no variable and divides by nothing.
-/

set_option autoImplicit false

namespace LineShell

namespace Arithmetic

/-- The numbers of expressions. -/
abbrev Number := Int64

/-- The variables as expressions see them. -/
structure Scope where
  value? : String → Option String
  /-- Whether a variable keeps its value. -/
  fixed : String → Bool

/-- Why an expression has no value. -/
inductive Fault where
  /-- The expression is wrong somewhere. -/
  | expression (text : String)
  /-- A variable holds no number. -/
  | illegal (text : String)
  /-- A variable cannot be set. -/
  | refused (text : String)

/-- What is left of an expression, and the values that variables were given in it, the latest
first. -/
structure State where
  rest : List Char
  scope : Scope
  given : List (String × String)

/-- A step of reading and computing. -/
abbrev Step := EStateM Fault State

/-! ## Numbers -/

/-- The value of a digit in bases up to sixteen. -/
def digitValue (c : Char) : Nat :=
  if c.isDigit then c.toNat - '0'.toNat
  else if 'a' ≤ c ∧ c ≤ 'f' then c.toNat - 'a'.toNat + 10
  else if 'A' ≤ c ∧ c ≤ 'F' then c.toNat - 'A'.toNat + 10
  else 16

/-- A number kept within what 64 bits hold. -/
def clamped (n : Int) : Number :=
  if 9223372036854775807 < n then 9223372036854775807
  else if n < -9223372036854775808 then -9223372036854775808
  else Int64.ofInt n

/-- The digits of a base at the start of a text, as a number, and what is behind them. -/
def digits (base : Nat) (text : List Char) : Nat × List Char :=
  let found := text.takeWhile fun c => digitValue c < base
  (found.foldl (fun n c => base * n + digitValue c) 0, text.drop found.length)

/-- The number at the start of a text, in base sixteen, eight or ten as it is written. -/
def number (text : List Char) : Nat × List Char :=
  match text with
  | '0' :: x :: c :: rest =>
    if (x = 'x' ∨ x = 'X') ∧ digitValue c < 16 then digits 16 (c :: rest)
    else digits 8 text
  | '0' :: _ => digits 8 text
  | _ => digits 10 text

/-- White space in front of a number. -/
def isBlank (c : Char) : Bool := " \t\n\x0b\x0c\r".toList.contains c

/-- Whether a text starts with a minus sign, and what is behind its sign, if it has one. -/
def signed (text : List Char) : Bool × List Char :=
  match text with
  | '-' :: rest => (true, rest)
  | '+' :: rest => (false, rest)
  | rest => (false, rest)

/-- The number that a whole text spells; an empty one spells zero. -/
def numberOf? (text : String) : Option Number :=
  let written := text.toList.dropWhile isBlank
  let (negative, text) := signed written
  let (n, rest) := number text
  let value : Int := if negative then -(n : Int) else n
  -- A sign alone is no number, and neither is one that 64 bits do not hold.
  if rest.length = text.length ∧ !written.isEmpty then none
  else if rest.all isBlank ∧ (clamped value).toInt = value then some (clamped value)
  else none

/-! ## Tokens -/

/-- Takes white space. -/
def skip : Step Unit := modify fun s => { s with rest := s.rest.dropWhile isBlank }

/-- Gives up, as something else was expected. -/
def fail {α : Type} (text : String) : Step α := throw (.expression text)

/-- The operators of two operands, by rising strength; longer ones come before shorter ones. -/
def levels : List (List String) :=
  [["||"], ["&&"], ["|"], ["^"], ["&"], ["==", "!="], ["<=", ">=", "<", ">"], ["<<", ">>"],
   ["+", "-"], ["*", "/", "%"]]

/-- All operators, longer ones first. -/
def operators : List String :=
  ["<<=", ">>=", "||", "&&", "==", "!=", "<=", ">=", "<<", ">>", "+=", "-=", "*=", "/=", "%=", "&=",
   "^=", "|=", "=", "|", "^", "&", "<", ">", "+", "-", "*", "/", "%", "?", ":", "(", ")", "!", "~"]

/-- The operator at the start of a text, and what is behind it. -/
def operator? (text : List Char) : Option (String × List Char) :=
  operators.findSome? fun op => (op.toList.isPrefixOf? text).map fun rest => (op, rest)

/-- The next operator, if one is next; it is not taken. -/
def peek : Step (Option String) := do
  skip
  return (operator? (← get).rest).map Prod.fst

/-- Takes the next operator. -/
def take : Step Unit := modify fun s =>
  { s with rest := ((operator? s.rest).map Prod.snd).getD s.rest }

/-! ## Computing -/

/-- The truth of a condition as a number. -/
def truth (b : Bool) : Number := if b then 1 else 0

/-- Shifts by a number of places, of which the lowest six bits count. -/
def places (n : Number) : Number := n &&& 63

/-- The value of an operator; `none` where it has none. -/
def result? (op : String) (a b : Number) : Option Number :=
  match op with
  | "|" => some (a ||| b)
  | "^" => some (a ^^^ b)
  | "&" => some (a &&& b)
  | "==" => some (truth (a == b))
  | "!=" => some (truth (a != b))
  | "<=" => some (truth (decide (a ≤ b)))
  | ">=" => some (truth (decide (b ≤ a)))
  | "<" => some (truth (decide (a < b)))
  | ">" => some (truth (decide (b < a)))
  | "<<" => some (a <<< places b)
  | ">>" => some (a >>> places b)
  | "+" => some (a + b)
  | "-" => some (a - b)
  | "*" => some (a * b)
  | "/" => if b = 0 then none else some (a / b)
  | "%" => if b = 0 then none else some (a % b)
  | _ => some b

/-- The value of an operator where it is needed. -/
def apply (needed : Bool) (op : String) (a b : Number) : Step Number :=
  if !needed then return 0
  else match result? op a b with
    | some n => return n
    | none => fail "division by zero"

/-- The value of a variable. -/
def valueOf (needed : Bool) (name : String) : Step Number := do
  if !needed then return 0
  let s ← get
  match (s.given.lookup name).or (s.scope.value? name) with
  | none => return 0
  | some text =>
    match numberOf? text with
    | some n => return n
    | none => throw (.illegal text)

/-- Sets a variable. -/
def assign (needed : Bool) (name : String) (n : Number) : Step Number := do
  if needed then
    if (← get).scope.fixed name then throw (.refused (name ++ ": is read only"))
    modify fun s => { s with given := (name, toString n.toInt) :: s.given }
  return n

/-- What the operand of an operator reads, at a level of strength. -/
structure Parts where
  /-- A whole expression, with assignments. -/
  whole : Bool → Step Number
  /-- An expression without assignments. -/
  choice : Bool → Step Number
  /-- Operators that are at least so strong. -/
  level : Nat → Bool → Step Number

/-- An operand, with the signs in front of it. -/
def operand (parts : Parts) (needed : Bool) : Step Number := do
  match ← peek with
  | some "(" =>
    take
    let n ← parts.whole needed
    if (← peek) = some ")" then
      take
      return n
    else fail "expecting ')'"
  | some "!" =>
    take
    return truth ((← parts.level levels.length needed) == 0)
  | some "~" =>
    take
    return ~~~(← parts.level levels.length needed)
  | some "-" =>
    take
    return -(← parts.level levels.length needed)
  | some "+" =>
    take
    parts.level levels.length needed
  | some _ => fail "expecting primary"
  | none =>
    let s ← get
    match s.rest with
    | [] => fail "expecting primary"
    | c :: _ =>
      if c.isDigit then
        let (n, rest) := number s.rest
        set { s with rest }
        return clamped n
      else
        let name := s.rest.takeWhile Script.isNameChar
        if name.isEmpty then fail "expecting primary"
        else
          set { s with rest := s.rest.drop name.length }
          valueOf needed (String.ofList name)

/-- The rest of a row of operators of one strength, behind an operand. -/
def row (parts : Parts) (level : Nat) (needed : Bool) : Nat → Number → Step Number
  | 0, n => return n
  | count + 1, n => do
    match ← peek with
    | none => return n
    | some op =>
      if !(levels[level]?.getD []).contains op then return n
      take
      if op = "||" then
        -- One side may settle it, and the other one is not computed then.
        let m ← parts.level (level + 1) (needed && n == 0)
        row parts level needed count (truth (n != 0 || m != 0))
      else if op = "&&" then
        let m ← parts.level (level + 1) (needed && n != 0)
        row parts level needed count (truth (n != 0 && m != 0))
      else
        let m ← parts.level (level + 1) needed
        row parts level needed count (← apply needed op n m)

/-- An expression without assignments: a condition may choose between two. -/
def chosen (parts : Parts) (needed : Bool) : Step Number := do
  let n ← parts.level 0 needed
  if (← peek) ≠ some "?" then return n
  take
  let yes ← parts.whole (needed && n != 0)
  if (← peek) ≠ some ":" then fail "expecting ':'"
  take
  let no ← parts.choice (needed && n == 0)
  return if n != 0 then yes else no

/-- The operators that assign, with the operator that they apply before. -/
def assignments : List (String × String) :=
  [("=", "="), ("*=", "*"), ("/=", "/"), ("%=", "%"), ("+=", "+"), ("-=", "-"), ("<<=", "<<"),
   (">>=", ">>"), ("&=", "&"), ("^=", "^"), ("|=", "|")]

/-- A whole expression. -/
def whole (parts : Parts) (needed : Bool) : Step Number := do
  skip
  let s ← get
  let name := s.rest.takeWhile Script.isNameChar
  let behind := (s.rest.drop name.length).dropWhile isBlank
  match if Script.isName name then operator? behind else none with
  | some (op, rest) =>
    match assignments.lookup op with
    | some "=" =>
      set { s with rest }
      assign needed (String.ofList name) (← parts.whole needed)
    | some plain =>
      set { s with rest }
      let m ← parts.whole needed
      let n ← valueOf needed (String.ofList name)
      assign needed (String.ofList name) (← apply needed plain n m)
    | none => parts.choice needed
  | none => parts.choice needed

/-- The parts of expressions that go so many levels deep at most. -/
def Parts.within : Nat → Parts
  | 0 => ⟨fun _ => fail "expression too deep", fun _ => fail "expression too deep",
      fun _ _ => fail "expression too deep"⟩
  | depth + 1 =>
    { whole := fun needed => Arithmetic.whole (within depth) needed
      choice := fun needed => chosen (within depth) needed
      level := fun level needed => do
        if level < levels.length then
          let n ← (within depth).level (level + 1) needed
          row (within depth) level needed ((← get).rest.length + 1) n
        else operand (within depth) needed }

/-- **The value of an expression,** and the values that it gives to variables, in order. -/
def evaluate (scope : Scope) (text : List Char) :
    Except Fault (Number × List (String × String)) :=
  let parts := Parts.within (16 * text.length + 32)
  let step : Step Number := do
    let n ← parts.whole true
    skip
    if !(← get).rest.isEmpty then fail "expecting EOF"
    return n
  match step.run ⟨text, scope, []⟩ with
  | .ok n s => .ok (n, s.given.reverse)
  | .error fault _ => .error fault

end Arithmetic

end LineShell
