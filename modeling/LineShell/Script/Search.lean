import LineShell.Script.Interpreter
/-!
Where a script finds the programs that it starts.
-/

set_option autoImplicit false

namespace LineShell

namespace Script

/-- The paths at which a program may stand: a word with a slash is the only one, and any other word
is looked up in the directories of the search path. -/
def programPaths (search name : String) : List String :=
  if name.toList.contains '/' then [name]
  else (search.splitOn ":").map fun dir =>
    if dir.isEmpty then name else dir ++ "/" ++ name

/-- The search path of a script. -/
def Search.path (s : Interpreter) : String := (s.value? "PATH").getD ""

/-- The paths of a program from the first one on that is a file and can be run, or why there is
none. -/
def findProgram (p : Process) : Cause → List String → Except Cause (List String)
  | cause, [] => .error cause
  | cause, path :: rest =>
    match p.look path with
    | .ok (_, .file _ rights) =>
      if rights.pass then .ok (path :: rest) else findProgram p .denied rest
    | .ok _ => findProgram p .denied rest
    | .error other =>
      findProgram p (if other == .missing || other == .notDirectory then cause else other) rest

/-- The paths of the program that a word names, or why there is none; a word with a slash is not
looked at yet. -/
def program (p : Process) (search name : String) : Except Cause (List String) :=
  if name.toList.contains '/' then .ok [name]
  else findProgram p .missing (programPaths search name)

/-- How many bytes of a file without a known format are looked at. -/
def headLength : Nat := 128

/-- Whether a byte may stand in the first line of a script: it can be printed, or it is white space,
or it switches between character sets. -/
def isTextByte (b : UInt8) : Bool :=
  (0x20 ≤ b && b != 0x7f) || (0x09 ≤ b && b ≤ 0x0f) || b == 0x1b

/-- Why a file without a known format is not taken for a script, if it is not. -/
def scriptFault (p : Process) (path : String) : Option Cause :=
  match p.files.read p.base (octetBytes path) with
  | .error cause => some cause
  | .ok data =>
    if ((data.take headLength).takeWhile (· != 0x0a)).all isTextByte then none
    else some .badFormat

/-- What a script says of a program that cannot be run. -/
def programFault (cause : Cause) : String :=
  match cause with
  | .missing | .notDirectory | .nulInPath => "not found"
  | cause => Process.causeText cause

/-- The status for a program that cannot be run. -/
def programFaultStatus (cause : Cause) : Nat :=
  match cause with
  | .missing | .notDirectory | .nulInPath | .tooManyLinks | .nameTooLong => 127
  | _ => 126

end Script

end LineShell
