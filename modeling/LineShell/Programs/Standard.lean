import LineShell.Builtin
import LineShell.Programs.Running
/-!
A standard machine: the directories and programs that stand on it, and the way it starts programs.
-/

set_option autoImplicit false

namespace LineShell

namespace Standard

/-! ## Files -/

/-- The directory of the machine's own programs. -/
def programDir : Place := [bytesOf "bin", bytesOf "usr"]

/-- The names of the directories below the root, and of those below each of them. -/
def layout : List (String × List String) :=
  [("boot", []), ("dev", []), ("etc", []), ("home", []), ("media", []), ("mnt", []), ("opt", []),
   ("proc", []), ("root", []), ("run", []), ("srv", []), ("sys", []),
   ("usr", ["bin", "include", "lib", "local", "sbin", "share", "src"]),
   ("var", ["cache", "lib", "log", "spool"])]

/-- Second ways to directories of programs. -/
def shortcuts : List (String × String) :=
  [("bin", "usr/bin"), ("lib", "usr/lib"), ("sbin", "usr/sbin")]

/-- The devices. -/
def devices : List (String × Device) := [("null", .null), ("full", .full)]

/-- The directories of the machine with its devices. Most of it belongs to the machine and cannot be
changed. -/
def directories : FileTree :=
  let bare := { FileTree.empty with root := .fixed }.addDir (bytesOf "tmp") [] .all
  let made := layout.foldl (fun tree (top, inner) =>
    inner.foldl (fun tree name => tree.addDir (bytesOf name) [bytesOf top] .fixed)
      (tree.addDir (bytesOf top) [] .fixed)) bare
  let linked := shortcuts.foldl (fun tree (name, target) =>
    tree.add (bytesOf name) [] (.link (bytesOf target))) made
  devices.foldl (fun tree (name, device) =>
    tree.add (bytesOf name) [bytesOf "dev"] (.device device)) linked

/-- The directories with the programs in them. -/
def files : FileTree :=
  Running.names.foldl (fun tree name =>
    tree.add (bytesOf name) programDir (.file (Image.fileOf name) .fixed)) directories

/-! ## Starting programs -/

/-- How long a word of a command may be at most. -/
def maxWordLength : Nat := 131071

/-- Whether texts can be handed to a program: they have to end where their first NUL byte is. -/
def canHandOver (texts : List String) : Bool :=
  texts.all fun text => !text.toList.contains '\x00' && decide (text.utf8ByteSize ≤ maxWordLength)

/-- The mask that processes start with: others may not write. -/
def startMask : Nat := 2 * 8 + 2

/-- A process that has just been started, with its input, its output and its error output. -/
def process (s : Surroundings) (workDir : WorkDir) (vars : Bindings) : Process where
  files := s.files
  channels := [.stream [s.input], .stream [], .stream []]
  descriptors := [(0, ⟨0, true, false⟩), (1, ⟨1, false, true⟩), (2, ⟨2, false, true⟩)]
  workDir := workDir
  mask := startMask
  number := Process.firstNumber
  starter := Process.firstNumber - 1
  fresh := Process.firstNumber + 1
  posted := []
  ignored := []
  environment := vars.entries.map fun (name, value) => (octetsOf name, octetsOf value)
  lost := none

/-- Starts a program in its directory and waits for its end. -/
def start (s : Surroundings) (launch : Launch) : Option Report := do
  let entries := launch.vars.entries.map Builtin.variableLine
  if !canHandOver (launch.words ++ entries) then none
  -- The program starts in the directory that it was given, not in the one the shell is in.
  match s.files.look s.base launch.directory with
  | .ok (place, .dir number rights) =>
    if !rights.pass then none
    let words := launch.words.map octetsOf
    let image ← (Image.load s.files (some place) launch.program words).toOption
    let (status, p) := (Running.run image).run (process s ⟨place, number⟩ launch.vars)
    return {
      status := status
      output := p.streamBytes 1
      errors := p.streamBytes 2
      files := p.files
      consumed := s.input.length - (p.streamBytes 0).length }
  | _ => none

/-- The way programs are run on this machine. -/
def host : Host := ⟨start⟩

end Standard

end LineShell
