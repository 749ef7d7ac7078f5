import LineShell.Machine
import LineShell.Text.Octets
/-!
Processes on this machine: what each has of its own, and what all share.

A process has descriptors, a directory and an environment of its own. The files, the channels
behind the descriptors and the signals on their way are shared: a process that is started gets them
as they are, and the one that started it goes on with them as they were left. Texts are texts of
bytes throughout.
-/

set_option autoImplicit false

namespace LineShell

/-- What is behind a descriptor. -/
inductive Channel where
  /-- Bytes that were written and have not been read, in pieces, the latest piece first. -/
  | stream (pieces : List Bytes)
  /-- A file, read and written from a position on. -/
  | file (place : Place) (position : Nat)
  /-- A file, written behind its end. -/
  | behind (place : Place)
deriving DecidableEq, Repr

/-- A descriptor: the number of a channel, and what may be done with it. -/
structure Descriptor where
  channel : Nat
  reads : Bool
  writes : Bool
deriving DecidableEq, Repr

/-- A process. -/
structure Process where
  files : FileTree
  /-- All channels of the machine; a descriptor knows its channel by its position here. -/
  channels : List Channel
  descriptors : List (Nat × Descriptor)
  workDir : WorkDir
  /-- What new files and directories do not allow, as three digits in base eight: for their owner,
  for the owner's group, and for others. -/
  mask : Nat
  /-- Its own number. -/
  number : Nat
  /-- The number of the process that started it. -/
  starter : Nat
  /-- The number of the next process. -/
  fresh : Nat
  /-- Signals on their way: to which process, and which. -/
  posted : List (Nat × Nat)
  /-- Signals that do nothing to it. -/
  ignored : List Nat
  /-- Its variables, as names and values. -/
  environment : List (String × String)
  /-- Why some of its output was lost, if some was. -/
  lost : Option Cause

/-- An action of a process. -/
abbrev ProcessM := StateM Process

namespace Process

/-- The place of the directory that a process is in, if it still exists. -/
def base (p : Process) : Option Place := p.files.placeOf p.workDir.place p.workDir.number

/-- What a path names for a process. -/
def look (p : Process) (path : String) : Except Cause (Place × Node) :=
  p.files.look p.base (octetBytes path)

/-- The value of a variable of the environment. -/
def valueOf? (p : Process) (name : String) : Option String := p.environment.lookup name

/-- The rights of something new, as far as the mask leaves them. -/
def allowed (p : Process) (rights : Rights) : Rights :=
  rights.without (.ofDigit (p.mask / 64))

/-! ## Channels -/

/-- The channel of a descriptor that allows what is wanted. -/
def channel? (p : Process) (descriptor : Nat) (wanted : Descriptor → Bool) :
    Option (Nat × Channel) := do
  let d ← p.descriptors.lookup descriptor
  if !wanted d then none
  return (d.channel, ← p.channels[d.channel]?)

/-- Makes a channel and gives its number. -/
def addChannel (p : Process) (channel : Channel) : Nat × Process :=
  (p.channels.length, { p with channels := p.channels ++ [channel] })

/-- Connects a descriptor, or takes it away. -/
def connect (p : Process) (descriptor : Nat) (target : Option Descriptor) : Process :=
  let others := p.descriptors.filter (·.1 != descriptor)
  { p with descriptors := match target with
    | some target => (descriptor, target) :: others
    | none => others }

/-- The bytes of a stream, in order. -/
def streamBytes (p : Process) (channel : Nat) : Bytes :=
  match p.channels[channel]? with
  | some (.stream pieces) => pieces.reverse.flatten
  | _ => []

/-- Writes bytes to a descriptor; gives why that was not possible. -/
def write (p : Process) (descriptor : Nat) (bytes : Bytes) : Except Cause Process :=
  if bytes.isEmpty then .ok p
  else match p.channel? descriptor Descriptor.writes with
    | none => .error .badDescriptor
    | some (n, .stream pieces) =>
      .ok { p with channels := p.channels.set n (.stream (bytes :: pieces)) }
    | some (n, .file place position) =>
      if p.files.isFullAt place then .error .noSpace
      else .ok { p with
        files := p.files.writeAt place position bytes
        channels := p.channels.set n (.file place (position + bytes.length)) }
    | some (_, .behind place) =>
      if p.files.isFullAt place then .error .noSpace
      else .ok { p with files := p.files.appendAt place bytes }

/-- The bytes that can be read from a descriptor. -/
def readable (p : Process) (descriptor : Nat) : Except Cause Bytes := do
  match p.channel? descriptor Descriptor.reads with
  | none => .error .badDescriptor
  | some (n, .stream _) => .ok (p.streamBytes n)
  | some (_, .file place position) =>
    match p.files.node? place with
    | some (.file data _) => .ok (data.drop position)
    | some (.dir ..) => .error .isDirectory
    | _ => .ok []
  | some (_, .behind _) => .ok []

/-- Takes as many bytes as were read from a descriptor. -/
def consume (p : Process) (descriptor count : Nat) : Process :=
  match p.channel? descriptor Descriptor.reads with
  | some (n, .stream _) =>
    { p with channels := p.channels.set n (.stream [(p.streamBytes n).drop count]) }
  | some (n, .file place position) =>
    { p with channels := p.channels.set n (.file place (position + count)) }
  | _ => p

/-! ## Input and output -/

/-- Prints bytes; what cannot be printed is remembered as lost. -/
def printBytes (bytes : Bytes) : ProcessM Unit := modify fun p =>
  match p.write 1 bytes with
  | .ok p => p
  | .error cause => { p with lost := some cause }

/-- Runs an action and prints at its end what it has printed. -/
def holdingOutput {α : Type} (action : ProcessM α) : ProcessM α := do
  let p ← get
  match p.channel? 1 Descriptor.writes with
  | none => action
  | some _ =>
    let (n, held) := p.addChannel (.stream [])
    set (held.connect 1 (some ⟨n, false, true⟩))
    let a ← action
    let bytes := (← get).streamBytes n
    modify fun now =>
      { now.connect 1 (p.descriptors.lookup 1) with channels := now.channels.set n (.stream []) }
    printBytes bytes
    return a

/-- Prints a text. -/
def print (text : String) : ProcessM Unit := printBytes (octetBytes text)

/-- Prints a text to the error output. -/
def printError (text : String) : ProcessM Unit := modify fun p =>
  (p.write 2 (octetBytes text)).toOption.getD p

/-- Prints a line to the error output. -/
def complain (text : String) : ProcessM Unit := printError (text ++ "\n")

/-- Reads all of the input. -/
def readAll : ProcessM (Except Cause Bytes) := do
  let p ← get
  match p.readable 0 with
  | .ok bytes =>
    set (p.consume 0 bytes.length)
    return .ok bytes
  | .error cause => return .error cause

/-- Reads the input up to the end of a line: the line, and whether it had an end. -/
def readLine : ProcessM (Except Cause (Bytes × Bool)) := do
  let p ← get
  match p.readable 0 with
  | .ok bytes =>
    let line := bytes.takeWhile (· != 0x0a)
    let whole := line.length < bytes.length
    set (p.consume 0 (line.length + if whole then 1 else 0))
    return .ok (line, whole)
  | .error cause => return .error cause

/-! ## Files -/

/-- Makes a change of the files, if it can be made. -/
def change (attempt : FileTree → Option Place → Except Cause FileTree) :
    ProcessM (Option Cause) := do
  let p ← get
  match attempt p.files p.base with
  | .ok files =>
    set { p with files }
    return none
  | .error cause => return some cause

/-- What a system says of a cause. -/
def causeText : Cause → String
  | .missing => "No such file or directory"
  | .denied => "Permission denied"
  | .alreadyThere => "File exists"
  | .notDirectory => "Not a directory"
  | .isDirectory => "Is a directory"
  | .invalid => "Invalid argument"
  | .busy => "Device or resource busy"
  | .noSpace => "No space left on device"
  | .nameTooLong => "File name too long"
  | .notEmpty => "Directory not empty"
  | .tooManyLinks => "Too many levels of symbolic links"
  | .badDescriptor => "Bad file descriptor"
  | .badFormat => "Exec format error"
  | .nulInPath => "No such file or directory"
  | _ => "Input/output error"

/-! ## Other processes -/

/-- **A process of its own.** It starts as a changed copy of this one, under the next number. What
is shared comes back from it, and nothing else does. -/
def inChild {α : Type} (prepare : Process → Process) (action : ProcessM α) : ProcessM α := do
  let parent ← get
  let copy := { parent with
    number := parent.fresh
    starter := parent.number
    fresh := parent.fresh + 1
    lost := none }
  let (result, child) := action.run (prepare copy)
  set { parent with
    files := child.files
    channels := child.channels
    fresh := child.fresh
    posted := child.posted }
  return result

/-- The number of the first process. -/
def firstNumber : Nat := 1000

/-- Whether a process has had a number. -/
def isKnown (p : Process) (number : Nat) : Bool :=
  number == 0 || (firstNumber ≤ number && number < p.fresh)

/-- Sends a signal to a process. -/
def post (target signal : Nat) : ProcessM Unit :=
  modify fun p => { p with posted := p.posted ++ [(target, signal)] }

/-- Takes the signals that have been sent to this process. -/
def takeSignals : ProcessM (List Nat) := do
  let p ← get
  let (own, others) := p.posted.partition (·.1 == p.number)
  set { p with posted := others }
  return (own.map Prod.snd).filter fun signal => !p.ignored.contains signal

end Process

end LineShell
