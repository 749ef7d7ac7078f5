import LineShell.Files.Access
import LineShell.Text.Octets
/-!
Patterns in scripts, and the paths that they match.

A pattern is a row of characters of which each is quoted or not; a quoted one matches itself. In a
path every step is matched on its own, and a step that starts with a dot has to be named with one.
-/

set_option autoImplicit false

namespace LineShell

namespace Script

/-- A pattern: characters, and whether each is quoted. -/
abbrev Pattern := List (Char × Bool)

namespace Pattern

/-- A character of a named class. -/
def inClass (name : String) (c : Char) : Bool :=
  let n := c.toNat
  match name with
  | "alpha" => c.isAlpha
  | "digit" => c.isDigit
  | "alnum" => c.isAlphanum
  | "upper" => c.isUpper
  | "lower" => c.isLower
  | "space" => c == ' ' || (9 ≤ n && n ≤ 13)
  | "blank" => c == ' ' || c == '\t'
  | "punct" => 33 ≤ n && n ≤ 126 && !c.isAlphanum
  | "print" => 32 ≤ n && n ≤ 126
  | "graph" => 33 ≤ n && n ≤ 126
  | "cntrl" => n < 32 || n == 127
  | "xdigit" => c.isDigit || ('a' ≤ c && c ≤ 'f') || ('A' ≤ c && c ≤ 'F')
  | _ => false

/-- What a set between brackets holds. -/
inductive Member where
  | range (low high : Char)
  | kind (name : String)

/-- The members of a set, from behind the opening bracket, and what is behind the closing one;
`none` if nothing closes it. -/
def members : Nat → Bool → Pattern → Option (List Member × Pattern)
  | 0, _, _ => none
  | _, _, [] => none
  | count + 1, first, (c, quoted) :: rest =>
    if c = ']' ∧ !quoted ∧ !first then some ([], rest)
    else
      let named : Option (String × Pattern) :=
        if c = '[' ∧ !quoted then
          match rest with
          | (':', false) :: inner =>
            let name := inner.takeWhile fun (c, _) => c.isAlpha
            match inner.drop name.length with
            | (':', false) :: (']', false) :: behind =>
              some (String.ofList (name.map Prod.fst), behind)
            | _ => none
          | _ => none
        else none
      match named with
      | some (name, behind) => do
        let (more, behind) ← members count false behind
        return (.kind name :: more, behind)
      | none =>
        match rest with
        | ('-', false) :: (high, quotedHigh) :: behind =>
          -- A dash in front of the closing bracket stands for itself.
          if high = ']' ∧ !quotedHigh then do
            let (more, behind) ← members count false rest
            return (.range c c :: more, behind)
          else do
            let (more, behind) ← members count false behind
            return (.range c high :: more, behind)
        | _ => do
          let (more, behind) ← members count false rest
          return (.range c c :: more, behind)

/-- An element of a pattern. -/
inductive Element where
  /-- Any run of characters. -/
  | run
  /-- Any one character. -/
  | one
  | set (members : List Member) (inverted : Bool)
  | exactly (c : Char)

/-- Whether an element matches one character. -/
def Element.admits (element : Element) (c : Char) : Bool :=
  match element with
  | .run | .one => true
  | .exactly x => c == x
  | .set members inverted =>
    let found := members.any fun
      | .range low high => decide (low ≤ c) && decide (c ≤ high)
      | .kind name => inClass name c
    found != inverted

/-- The elements of a pattern. -/
def elements : Nat → Pattern → List Element
  | 0, _ => []
  | _, [] => []
  | count + 1, (c, true) :: rest => .exactly c :: elements count rest
  | count + 1, ('*', false) :: rest => .run :: elements count rest
  | count + 1, ('?', false) :: rest => .one :: elements count rest
  | count + 1, ('\\', false) :: (c, _) :: rest => .exactly c :: elements count rest
  | count + 1, ('[', false) :: rest =>
    let (inverted, inner) := match rest with
      | ('!', false) :: inner => (true, inner)
      | ('^', false) :: inner => (true, inner)
      | inner => (false, inner)
    match members (inner.length + 1) true inner with
    | some (found, behind) => .set found inverted :: elements count behind
    | none => .exactly '[' :: elements count rest
  | count + 1, (c, false) :: rest => .exactly c :: elements count rest

/-- The answers for all ends of a text, the whole text first: whether an element in front of what
the given answers are for matches. -/
def answers (element : Element) : List Char → List Bool → List Bool
  | c :: rest, here :: later =>
    let ends := answers element rest later
    let answer := match element with
      | .run => here || ends.headD false
      | other => other.admits c && later.headD false
    answer :: ends
  | [], here :: _ => [match element with | .run => here | _ => false]
  | _, [] => []

/-- **Whether a pattern matches a whole text.** -/
def matchesText (pattern : Pattern) (text : List Char) : Bool :=
  let none : List Bool := text.map (fun _ => false) ++ [true]
  ((elements (pattern.length + 1) pattern).foldr (fun element => answers element text)
    none).headD false

/-- The text of a pattern as it is written. -/
def text (pattern : Pattern) : List Char := pattern.map Prod.fst

/-- Whether a pattern could match more than itself. -/
def isWild (pattern : Pattern) : Bool :=
  pattern.any fun (c, quoted) => !quoted && (c == '*' || c == '?' || c == '[')

/-! ## Trimming -/

/-- A text without the shortest or longest start that a pattern matches. -/
def trimStart (pattern : Pattern) (longest : Bool) (text : List Char) : List Char :=
  let cuts := (List.range (text.length + 1)).filter fun n => pattern.matchesText (text.take n)
  match if longest then cuts.getLast? else cuts.head? with
  | some n => text.drop n
  | none => text

/-- A text without the shortest or longest end that a pattern matches. -/
def trimEnd (pattern : Pattern) (longest : Bool) (text : List Char) : List Char :=
  let cuts := (List.range (text.length + 1)).filter fun n => pattern.matchesText (text.drop n)
  match if longest then cuts.head? else cuts.getLast? with
  | some n => text.take n
  | none => text

/-! ## Paths -/

/-- A step of a path pattern, with the slashes behind it. -/
structure PathStep where
  pattern : Pattern
  slashes : List Char

/-- The steps of a path pattern. -/
def pathSteps : Nat → Pattern → List PathStep
  | 0, _ => []
  | _, [] => []
  | count + 1, pattern =>
    let step := pattern.takeWhile fun (c, _) => c != '/'
    let behind := pattern.drop step.length
    let slashes := behind.takeWhile fun (c, _) => c == '/'
    ⟨step, slashes.map Prod.fst⟩ :: pathSteps count (behind.drop slashes.length)

/-- The names in a directory that a step matches. -/
def namesFor (files : FileTree) (base : Option Place) (directory : List Char) (step : Pattern) :
    List (List Char) :=
  let path := if directory.isEmpty then Path.dot else directory.map Octets.byteOf
  let names := match files.list base path with
    | .ok names => Path.dot :: Path.dotDot :: names
    | .error _ => []
  let hidden := (step.head?.map Prod.fst) == some '.'
  (names.map fun name => name.map Octets.charOf).filter fun name =>
    (hidden || name.head? != some '.') && step.matchesText name

/-- The paths that steps match behind a path. -/
def pathsBehind (files : FileTree) (base : Option Place) :
    List PathStep → List Char → List (List Char)
  | [], path => [path]
  | step :: rest, path =>
    let stands (path : List Char) : Bool :=
      match files.look base (path.map Octets.byteOf) with
      | .ok _ => true
      | .error _ =>
        -- At the end of a path a link will do that leads nowhere.
        rest.isEmpty && path.getLast? != some '/' &&
          (files.entry base (path.map Octets.byteOf)).toOption.isSome
    if step.pattern.isWild then
      (namesFor files base path step.pattern).flatMap fun name =>
        let path := path ++ name ++ step.slashes
        if step.slashes.isEmpty || stands path then pathsBehind files base rest path else []
    else
      let path := path ++ step.pattern.text ++ step.slashes
      if stands path then pathsBehind files base rest path else []

/-- **The paths that a pattern matches,** in increasing order. -/
def paths (files : FileTree) (base : Option Place) (pattern : Pattern) : List String :=
  if pattern.isWild then
    ((pathsBehind files base (pathSteps (pattern.length + 1) pattern) []).map
      String.ofList).mergeSort (· ≤ ·)
  else []

end Pattern

end Script

end LineShell
