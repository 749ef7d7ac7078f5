import LineShell.Machine
/-!
Wildcard patterns and the names that they match.

Only the last step of a pattern is matched; what stands before its last slash is a directory as
written. `*` matches any run of characters and `?` any one character, neither of them a line feed;
every other character matches itself. A name that starts with a dot is matched only by a pattern
that starts with one. A pattern that is too large matches nothing.
-/

set_option autoImplicit false

namespace LineShell

namespace Wildcard

/-- An element of a pattern. -/
inductive Element where
  /-- `*`: any run of characters without a line feed. -/
  | run
  /-- `?`: any character but a line feed. -/
  | one
  /-- A character that matches itself. -/
  | exactly (c : Char)
deriving DecidableEq, Repr

/-- The element that a character of a pattern stands for. -/
def Element.ofChar (c : Char) : Element :=
  if c = '*' then .run else if c = '?' then .one else .exactly c

/-- Whether a word is a pattern. -/
def isPattern (word : String) : Bool := word.toList.any fun c => c == '*' || c == '?'

/-! ## Matching

Matching asks, for every end of a text, whether the pattern matches that end. The answers form a
list, the one for the whole text first, and are found for a pattern from the answers for the
pattern without its first element. So no end is looked at twice by one element. -/

/-- The answers for the empty pattern: it matches the empty text only. -/
def answersEmpty : List Char → List Bool
  | [] => [true]
  | _ :: rest => false :: answersEmpty rest

/-- The answers for a pattern, from those for the pattern without its first element. -/
def answersCons (element : Element) : List Char → List Bool → List Bool
  | c :: rest, here :: later =>
    let ends := answersCons element rest later
    let answer := match element with
      -- A run is empty here, or takes this character and goes on behind it.
      | .run => here || (c != '\n' && ends.headD false)
      | .one => c != '\n' && later.headD false
      | .exactly x => c == x && later.headD false
    answer :: ends
  | [], here :: _ => [element == .run && here]
  | _, [] => []

/-- **Whether a pattern matches a text.** -/
def matchesAll (pattern : List Element) (text : List Char) : Bool :=
  (pattern.foldr (fun element answers => answersCons element text answers)
    (answersEmpty text)).headD false

/-! ## Size

A pattern becomes two matchers, one that reads a text from its start and one that reads it from its
end. Neither of them may take more than a bounded number of bytes, and so a pattern may not be too
large. -/

/-- How many bytes a matcher takes. -/
structure Matcher where
  /-- For the empty pattern. -/
  frame : Nat
  /-- For a run. -/
  run : Nat
  /-- For a character that may be any but one. -/
  one : Nat
  /-- For each byte of a character that matches itself. -/
  octet : Nat
deriving DecidableEq, Repr

namespace Matcher

/-- The matcher that reads a text from its start. -/
def forwards : Matcher := ⟨192, 464, 424, 32⟩

/-- The matcher that reads a text from its end. -/
def backwards : Matcher := ⟨128, 1040, 1000, 32⟩

/-- How many bytes a matcher takes for an element. -/
def weight (matcher : Matcher) : Element → Nat
  | .run => matcher.run
  | .one => matcher.one
  | .exactly c => matcher.octet * c.utf8Size

/-- How many bytes a matcher takes for a pattern. -/
def size (matcher : Matcher) (pattern : List Element) : Nat :=
  pattern.foldl (fun size element => size + matcher.weight element) matcher.frame

/-- The most bytes that a matcher may take. -/
def maxSize : Nat := 10485760

end Matcher

/-- Whether a pattern is too large for one of its matchers. -/
def isTooLarge (pattern : List Element) : Bool :=
  [Matcher.forwards, Matcher.backwards].any fun matcher => Matcher.maxSize < matcher.size pattern

/-! ## Expansion -/

/-- A pattern cut behind its last slash: the directory as written, and what is matched. -/
def cut (pattern : List Char) : List Char × List Char :=
  let step := (pattern.reverse.takeWhile (· != '/')).reverse
  (pattern.take (pattern.length - step.length), step)

/-- Whether a pattern's last step matches a name. -/
def admits (step name : List Char) : Bool :=
  (name.head? != some '.' || step.head? == some '.') &&
    matchesAll (step.map Element.ofChar) name

/-- Why a pattern cannot be expanded. -/
inductive Failure where
  /-- What is matched is too large. -/
  | tooLarge (step : String)
  /-- The names in the directory cannot be listed. -/
  | unreadable (directory : Path) (cause : Cause)
deriving DecidableEq, Repr

/-- The text of a failure. -/
def Failure.message : Failure → String
  | .tooLarge step =>
    "bad pattern " ++ step ++ ": Compiled regex exceeds size limit of " ++
      toString Matcher.maxSize ++ " bytes."
  | .unreadable directory cause =>
    "can't read " ++ stringOf directory ++ ": " ++ cause.message

/-- **The names that a pattern matches,** in increasing order, each behind the pattern's directory
as written. Names that are no text are passed over. -/
def expand (files : FileTree) (base : Option Place) (pattern : String) (workDir : Path) :
    Except Failure (List String) := do
  let (written, step) := cut pattern.toList
  let directory := if written.isEmpty then workDir else workDir.join (Utf8.encode written)
  -- The pattern is looked at before the directory is.
  if isTooLarge (step.map Element.ofChar) then throw (.tooLarge (String.ofList step))
  match files.list base directory with
  | .error cause => throw (.unreadable directory cause)
  | .ok names =>
    let found := (names.filterMap Utf8.decode?).filter (admits step)
    return (found.map fun name => String.ofList (written ++ name)).mergeSort (· ≤ ·)

/-- What is printed for a pattern: the names on one line, or that there are none, also where the
pattern cannot be expanded. -/
def report (pattern : String) (found : Except Failure (List String)) : String :=
  match found with
  | .ok (name :: names) => " ".intercalate (name :: names)
  | _ => "psh: no matches found: " ++ pattern

/-- Prints what a pattern matches. -/
def print (pattern : String) (workDir : Path) : Effect Unit := do
  let m ← get
  Effect.writeLine (report pattern (expand m.files m.base pattern workDir))

end Wildcard

end LineShell
