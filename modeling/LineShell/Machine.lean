import LineShell.Program
import LineShell.Terminal
/-!
The machine that the shell works on: files, the directory it is in, a terminal, and a journal of
what was done.

An effect is a function on machines that may fail; the machine is kept when it does, as what was
done before stays done. Every effect writes itself into the journal, so the order of output,
keystrokes, log entries and program starts can be read off the machine afterwards.
-/

set_option autoImplicit false

namespace LineShell

/-! ## Journal -/

/-- A remark for whoever maintains the shell. -/
inductive Notice where
  | malformedAlias
  | aliasFileIgnored
  | builtinFailed
  | noWorkingDirectory
deriving DecidableEq, Repr

/-- The text of a notice, its level first. -/
def Notice.text : Notice → String
  | .malformedAlias => "WARN skipping malformed alias"
  | .aliasFileIgnored => "WARN ignoring alias file"
  | .builtinFailed => "WARN builtin failed"
  | .noWorkingDirectory => "ERROR failed to get current working directory"

/-- Something that was done. -/
inductive Event where
  /-- The screen took these bytes. -/
  | wrote (bytes : Bytes)
  /-- The screen was flushed. -/
  | flushed
  /-- The next key was asked for. -/
  | awaited
  /-- Bytes were put behind the file at a place. -/
  | logged (place : Place) (bytes : Bytes)
  /-- A command was taken up. -/
  | dispatched (words : List String)
  /-- A program was to be started. -/
  | launched (launch : Launch)
  /-- A program printed. -/
  | printed (bytes : Bytes)
  | noticed (notice : Notice)
deriving DecidableEq

/-! ## Machine -/

/-- A directory that was entered. It is known by its number, so a directory made later at the same
place is another one. -/
structure WorkDir where
  place : Place
  number : Nat
deriving DecidableEq, Repr

/-- The machine that the shell works on. -/
structure Machine where
  files : FileTree
  workDir : WorkDir
  screen : Screen
  keys : KeySource
  /-- What was printed to the error output. -/
  errors : Bytes
  /-- What was done, latest first. -/
  journal : List Event

namespace Machine

/-- A machine in the root directory of a file tree. -/
def boot (files : FileTree) : Machine :=
  ⟨files, ⟨[], FileTree.rootNumber⟩, .unlimited, .ofBytes [], [], []⟩

instance : Inhabited Machine := ⟨boot .empty⟩

/-- The place of the directory the machine is in, if it still exists. -/
def base (m : Machine) : Option Place := m.files.placeOf m.workDir.place m.workDir.number

/-- The path of the directory the machine is in. -/
def currentDir (m : Machine) : Except Cause Path :=
  match m.base with
  | some place => .ok place.path
  | none => .error .missing

/-- The machine in another directory. -/
def enter (m : Machine) (path : Path) : Except Cause Machine := do
  match ← m.files.look m.base path with
  | (place, .dir number rights) =>
    if rights.pass then .ok { m with workDir := ⟨place, number⟩ } else .error .denied
  | _ => .error .notDirectory

/-- The machine with an event in its journal. -/
def record (m : Machine) (event : Event) : Machine := { m with journal := event :: m.journal }

/-- The notices in the journal, in order. -/
def notices (m : Machine) : List Notice :=
  m.journal.reverse.filterMap fun
    | .noticed notice => some notice
    | _ => none

end Machine

/-! ## Effects -/

/-- A function on machines that may fail. -/
abbrev Effect := EStateM Cause Machine

namespace Effect

/-- Puts an event into the journal. -/
def note (event : Event) : Effect Unit := modify (·.record event)

/-- Writes bytes to the screen; fails once it has taken all it takes. -/
def writeBytes (bytes : Bytes) : Effect Unit := do
  let screen := (← get).screen
  -- What fits is written even if not all of it fits.
  let taken := screen.accepted bytes
  modify fun m => { m with screen := screen.accept bytes }
  note (.wrote taken)
  if taken.length < bytes.length then throw .screenFull

/-- Writes a text to the screen. -/
def write (text : String) : Effect Unit := writeBytes (bytesOf text)

/-- Writes a text and ends the line. -/
def writeLine (text : String) : Effect Unit := write (text ++ "\n")

/-- Lets everything that is held back arrive. -/
def flush : Effect Unit := do
  if (← get).screen.flushes = some 0 then throw .flushFailed
  modify fun m => { m with screen := m.screen.settled }
  note .flushed

/-- Asks for the next byte from the keys; `none` at the end of the input. -/
def nextByte : Effect (Option UInt8) := do
  note .awaited
  match (← get).keys.next with
  | .ok (byte, keys) =>
    modify fun m => { m with keys }
    return byte
  | .error cause => throw cause

/-- Opens a file for writing and makes it if need be; gives its place. -/
def openFile (path : Path) : Effect Place := do
  let m ← get
  match m.files.openFile m.base path .plain with
  | .ok (place, files) =>
    modify fun m => { m with files }
    return place
  | .error cause => throw cause

/-- Puts bytes behind an opened file. -/
def append (place : Place) (bytes : Bytes) : Effect Unit := do
  if (← get).files.isFullAt place then throw .noSpace
  modify fun m => { m with files := m.files.appendAt place bytes }
  note (.logged place bytes)

/-- Runs a program to its end; `none` if it cannot be started. What it prints lands at once. -/
def launch (host : Host) (launch : Launch) : Effect (Option ExitStatus) := do
  note (.launched launch)
  let m ← get
  match host.run ⟨m.files, m.base, m.keys.offered⟩ launch with
  | none => return none
  | some report =>
    modify fun m =>
      { m with
        files := report.files
        screen := m.screen.land report.output
        errors := m.errors ++ report.errors
        keys := m.keys.consumed report.consumed }
    note (.printed report.output)
    return some report.status

end Effect

end LineShell
