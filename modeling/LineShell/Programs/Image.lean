import LineShell.Files.Access
import LineShell.Text.Octets
/-!
What a program file holds: one of the machine's own programs, or a script with its interpreter.

The machine's own programs are marked by their first bytes, and their name follows the mark. A
script names its interpreter in its first line, behind `#!`; the interpreter is started with the
path of the script in front of the arguments.
-/

set_option autoImplicit false

namespace LineShell

/-- What is run for a program file. -/
structure Image where
  /-- The name of one of the machine's own programs. -/
  utility : String
  /-- The words that it is given, its name first. -/
  words : List String
deriving DecidableEq, Repr

/-- Why a program file cannot be run. -/
inductive ImageFault where
  | refused (cause : Cause)
  /-- It is neither a program nor a script that names an interpreter. -/
  | unknownFormat
deriving DecidableEq, Repr

namespace Image

/-- The bytes that mark the machine's own programs: sixteen of them, whatever the name is. -/
def mark : Bytes := [0x7f, 0x45, 0x4c, 0x46, 2, 1, 1] ++ List.replicate 9 0

/-- The contents of the file of one of the machine's own programs. -/
def fileOf (utility : String) : Bytes := mark ++ bytesOf utility

/-- The name of the program that a file holds. Nothing but letters and signs stands in a name. -/
def utility? (data : Bytes) : Option String :=
  match mark.isPrefixOf? data with
  | some name =>
    if !name.isEmpty && name.all fun b => 0x20 < b && b < 0x7f then some (octetText name) else none
  | none => none

/-- Whether a byte is a space or a tab. -/
def isBlank (b : UInt8) : Bool := b == 0x20 || b == 0x09

/-- Whether a byte ends a word of the first line. -/
def endsWord (b : UInt8) : Bool := isBlank b || b == 0

/-- How many bytes of a script are looked at. -/
def headLength : Nat := 256

/-- The interpreter that a first line names, with at most one argument. -/
def interpreterIn (line : Bytes) : Option (Bytes × Option Bytes) :=
  let line := line.dropWhile isBlank
  let path := line.takeWhile fun b => !endsWord b
  let behind := line.drop path.length
  -- Whatever stands behind the first blanks is one argument.
  let argument := match behind with
    | [] => none
    | 0 :: _ => none
    | _ =>
      let rest := behind.dropWhile isBlank
      if rest.isEmpty then none else some (rest.takeWhile (· != 0))
  if path.isEmpty then none else some (path, argument)

/-- The interpreter that a script names. The head of a script is filled up with NUL bytes. Blanks at
the end of a line do not count, but a last line that nothing ends keeps them. -/
def interpreter? (data : Bytes) : Option (Bytes × Option Bytes) :=
  match data with
  | 0x23 :: 0x21 :: _ =>
    let head := data.take headLength ++ List.replicate (headLength - data.length) 0
    let line := (head.drop 2).takeWhile (· != 0x0a)
    if line.length + 2 < headLength then
      interpreterIn (line.reverse.dropWhile isBlank).reverse
    else
      let line := line.dropLast
      -- A name that goes on behind the head would not be seen whole.
      if (line.dropWhile isBlank).any endsWord then
        interpreterIn (line.reverse.dropWhile isBlank).reverse
      else none
  | _ => none

/-- How many files are looked at to run one: scripts whose interpreters are scripts, and a
program. -/
def maxFiles : Nat := 6

/-- What is run for the file at a path, if so many files are enough. -/
def loadWithin (files : FileTree) (base : Option Place) :
    Nat → Path → List String → Except ImageFault Image
  | 0, _, _ => .error (.refused .tooManyLinks)
  | depth + 1, path, words =>
    match files.look base path with
    | .ok (_, .file data rights) =>
      if !rights.pass then .error (.refused .denied)
      else match utility? data with
        | some name => .ok ⟨name, words⟩
        | none =>
          match interpreter? data with
          | none => .error .unknownFormat
          | some (interpreter, argument) =>
            -- The interpreter's words take the place of the name that the script was called by.
            let front := octetText interpreter :: (argument.map octetText).toList
            loadWithin files base depth interpreter (front ++ octetText path :: words.tail)
    | .ok _ => .error (.refused .denied)
    | .error cause => .error (.refused cause)

/-- **What is run for the file at a path** that is started with some words. -/
def load (files : FileTree) (base : Option Place) (path : Path) (words : List String) :
    Except ImageFault Image :=
  loadWithin files base maxFiles path words

end Image

end LineShell
