import LineShell.Quote
import LineShell.Text.White
/-!
The words of a command.

A command is first cut at white space; quotes are then resolved piece by piece, so that a quoted
phrase that reaches over several pieces is glued back into one word, with single spaces where the
white space was. The first quote in a piece opens a phrase and is dropped. The phrase ends with the
piece that ends in the same quote, which is dropped too; a phrase that never ends takes the rest of
the command.
-/

set_option autoImplicit false

namespace LineShell

namespace Words

/-- The state between two pieces: the words so far, latest first, and the phrase that is open. -/
inductive State where
  /-- No phrase is open. -/
  | outside (done : List (List Char))
  /-- A phrase is open; `current` is its text so far. -/
  | inside (quote : Quote) (current : List Char) (done : List (List Char))
deriving DecidableEq, Repr

namespace State

/-- All words of a state, in order; an open phrase counts as one. -/
def words : State → List (List Char)
  | outside done => done.reverse
  | inside _ current done => (current :: done).reverse

/-- The quote that is open. -/
def opened : State → Option Quote
  | outside _ => none
  | inside quote _ _ => some quote

end State

/-- A piece without its first quote, and that quote; `none` if it has none. -/
def dropQuote? (piece : List Char) : Option (Quote × List Char) :=
  match piece with
  | [] => none
  | c :: rest =>
    match Quote.ofChar? c with
    | some quote => some (quote, rest)
    | none => (dropQuote? rest).map fun (quote, others) => (quote, c :: others)

/-- A text without the character it ends with; `none` if it ends otherwise. -/
def dropEnd? (last : Char) (text : List Char) : Option (List Char) :=
  if text.getLast? = some last then some text.dropLast else none

/-- A piece outside of phrases: a word as it stands, a whole phrase, or the start of one. -/
def opening (done : List (List Char)) (piece : List Char) : State :=
  match dropQuote? piece with
  | none => .outside (piece :: done)
  | some (quote, text) =>
    -- Only the end of the piece is looked at; quotes before it are ordinary characters.
    match dropEnd? quote.char text with
    | some phrase => .outside (phrase :: done)
    | none => .inside quote text done

/-- A piece inside a phrase: its end if the piece ends in the quote, and more of it otherwise. -/
def continuing (quote : Quote) (current : List Char) (done : List (List Char))
    (piece : List Char) : State :=
  match dropEnd? quote.char piece with
  | some text => .outside ((current ++ ' ' :: text) :: done)
  | none => .inside quote (current ++ ' ' :: piece) done

/-- **One piece.** -/
def step : State → List Char → State
  | .outside done, piece => opening done piece
  | .inside quote current done, piece => continuing quote current done piece

/-- The state after the pieces of a command. -/
def scan (command : List Char) : State := (Text.words command).foldl step (.outside [])

/-- The words of a command, on lists of characters. -/
def ofChars (command : List Char) : List (List Char) := (scan command).words

end Words

/-- **The words of a command.** The first one names what is to be run. -/
def wordsOf (command : String) : List String :=
  (Words.ofChars command.toList).map String.ofList

example : wordsOf "git commit --message=\"fix the build\"" =
    ["git", "commit", "--message=fix the build"] := by decide +kernel

example : wordsOf "echo \"it's fine\" '' 'a  b" = ["echo", "it's fine", "", "a b"] := by
  decide +kernel

end LineShell
