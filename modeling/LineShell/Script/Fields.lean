import LineShell.Script.Pattern
/-!
Cutting a line of input into the values of variables.

Separators that are white space count as one, and one other separator may stand among them; any
further one ends an empty value. The last value takes all that is left. It loses its first
separator and what is behind it where nothing follows but white space and at most one other
separator, and white space at its end in any case. Quoted characters separate nothing, but neither
do they show that the last value goes on.
-/

set_option autoImplicit false

namespace LineShell

namespace Script

/-- The characters of a line; a backslash quotes the one behind it, and says nothing at the end. -/
def lineChars (raw : Bool) : List Char → Pattern
  | [] => []
  | '\\' :: rest =>
    if raw then ('\\', false) :: lineChars raw rest
    else match rest with
      | [] => []
      | c :: rest => (c, true) :: lineChars raw rest
  | c :: rest => (c, false) :: lineChars raw rest

/-- How far a line has been cut. -/
structure Fields where
  /-- The values that are complete. -/
  complete : List (List Char)
  /-- The value that is being read. -/
  field : List Char
  /-- How many values may still be ended by a separator; if none, the last value is being read, and
  a separator has been met in it. -/
  left : Nat
  /-- How much of the last value counts, unless more of it follows. -/
  kept : Option Nat
  /-- Whether the separator before was white space. -/
  behindBlank : Bool
  /-- Whether further separators are passed over. -/
  skipping : Bool

namespace Fields

/-- Takes a character that is not quoted into the value, or ends the value with it. -/
def plain (s : Fields) (c : Char) (separates isBlank : Bool) : Fields :=
  if !separates then { s with field := s.field ++ [c], skipping := false }
  else if isBlank && s.field.isEmpty then s
  else if s.left = 1 then
    { s with
      left := 0, field := s.field ++ [c], kept := some s.field.length, behindBlank := isBlank }
  else
    { s with
      complete := s.complete ++ [s.field], field := [], left := s.left - 1
      behindBlank := isBlank, skipping := isBlank }

/-- Takes one character of a line, which may be quoted. -/
def step (separators : List Char) (s : Fields) (char : Char × Bool) : Fields :=
  let (c, quoted) := char
  let separates := separators.contains c
  let isBlank := separates && " \t\n".toList.contains c
  if quoted then { s with field := s.field ++ [c], behindBlank := false, skipping := false }
  else if s.left = 0 then
    let kept :=
      if isBlank then s.kept.or (some s.field.length)
      else if separates && s.behindBlank then s.kept
      else none
    { s with field := s.field ++ [c], kept, behindBlank := isBlank && s.behindBlank }
  else if s.skipping && isBlank then s
  else if s.skipping && separates && s.behindBlank then { s with behindBlank := false }
  else plain { s with skipping := false } c separates isBlank

/-- **The values of a line,** at most so many. -/
def ofLine (separators : List Char) (count : Nat) (line : Pattern) : List String :=
  let s := line.foldl (step separators) ⟨[], [], count, none, false, false⟩
  let last := match s.kept with
    | some n => s.field.take n
    | none => s.field
  (s.complete ++ [last]).map String.ofList

end Fields

end Script

end LineShell
