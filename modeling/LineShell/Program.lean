import LineShell.Bindings
import LineShell.Files.Access
/-!
Programs outside the shell: how one is found, what it is given, and what is seen of its run.

The shell knows a program by a path, and the run of a program by a report. What lies between, the
machine's own way to start programs, is a parameter: a `Host` is a function from what a program is
given to the report of its run. It gets the files and the input but neither the shell's variables
nor its directory, so no program can change them.
-/

set_option autoImplicit false

namespace LineShell

/-! ## Finding a program -/

namespace Program

/-- The byte between two directories of a search path. -/
def searchSeparator : UInt8 := 0x3a

/-- The directories of a search path, in order; empty entries do not count. -/
def searchDirs (search : Path) : List Path :=
  (search.splitOn searchSeparator).filter fun dir => !dir.isEmpty

/-- The paths at which a program may stand. A word with a slash is a path itself; any other word is
looked up in the directories of the search path. -/
def candidates (word search directory : Path) : List Path :=
  if word.isEmpty then []
  else if word.contains Path.slash then [directory.join word]
  else (searchDirs search).map fun dir => (directory.join dir).join word

/-- **The program a word names:** the first candidate that is a regular file. -/
def find? (files : FileTree) (base : Option Place) (word search directory : Path) : Option Path :=
  (candidates word search directory).find? (files.isFile base)

end Program

/-! ## Running a program -/

/-- What a program is given. -/
structure Launch where
  /-- The path of its file. -/
  program : Path
  /-- The words of the command, its name first, as typed. -/
  words : List String
  vars : Bindings
  directory : Path
deriving DecidableEq

/-- What a program finds when it starts. -/
structure Surroundings where
  files : FileTree
  /-- The directory that relative paths start from, if it exists. -/
  base : Option Place
  input : Bytes

/-- How a program ended. -/
inductive ExitStatus where
  | code (n : Nat)
  | signal (n : Nat)
deriving DecidableEq, Repr

/-- The number that stands for a status: the code, or 128 more than the signal. -/
def ExitStatus.number : ExitStatus → Nat
  | .code n => n
  | .signal n => 128 + n

/-- What is seen of a program's run. -/
structure Report where
  status : ExitStatus
  /-- What it printed. -/
  output : Bytes
  /-- What it printed to the error output. -/
  errors : Bytes
  /-- The files when it ended. -/
  files : FileTree
  /-- How many bytes of the input it read. -/
  consumed : Nat

/-- A way to run programs: the report of a run, or `none` if the program cannot be started. -/
structure Host where
  run : Surroundings → Launch → Option Report

end LineShell
