import LineShell.Script.Expansion
/-!
Redirections: what the descriptors of a command are connected to while it runs.

The words of all redirections are expanded before the first one is made, but a document is expanded
when its turn has come. Redirections that have been made are undone behind the command, in whatever
way it ends.
-/

set_option autoImplicit false

namespace LineShell

namespace Script

/-- A redirection whose words have been expanded, except those of a document. -/
inductive Connection where
  | file (descriptor : Nat) (opening : Opening) (path : String)
  /-- To what another descriptor is connected to, or to nothing. -/
  | copy (descriptor : Nat) (source : Option Nat)
  | document (descriptor : Nat) (text : Word)

namespace Connection

/-- The descriptor that is connected. -/
def descriptor : Connection → Nat
  | file descriptor .. => descriptor
  | copy descriptor _ => descriptor
  | document descriptor _ => descriptor

/-- The connection that a redirection asks for. -/
def ofRedirect (output : Script → InterpreterM String) (redirect : Redirect) :
    InterpreterM Connection := do
  match redirect with
  | .file descriptor opening path =>
    return .file descriptor opening (← expandText output .text path)
  | .document descriptor text => return .document descriptor text
  | .copy descriptor source =>
    let text ← expandText output .text source
    match text.toList with
    | ['-'] => return .copy descriptor none
    | [d] =>
      if d.isDigit then return .copy descriptor (some (decimal [d]))
      else Interpreter.fail "Syntax error: Bad fd number"
    | _ => Interpreter.fail "Syntax error: Bad fd number"

/-- Why a file could not be opened, as a script says it. -/
def openFault (creates : Bool) (path : String) (cause : Cause) : String :=
  let what := match cause with
    | .missing | .notDirectory => if creates then "Directory nonexistent" else "No such file"
    | cause => Process.causeText cause
  "cannot " ++ (if creates then "create " else "open ") ++ path ++ ": " ++ what

/-- Opens a file to read from it. -/
def openToRead (p : Process) (path : String) : Except Cause Channel := do
  match ← p.look path with
  | (place, .file _ rights) => if rights.read then .ok (.file place 0) else .error .denied
  | (place, .dir _ rights) => if rights.read then .ok (.file place 0) else .error .denied
  | (place, _) => .ok (.file place 0)

/-- Opens a file to write to it; `guarded` says that no regular file may be there yet. -/
def openToWrite (p : Process) (opening : Opening) (guarded : Bool) (path : String) :
    Except Cause (Channel × FileTree) := do
  if guarded && p.files.isFile p.base (octetBytes path) then throw .alreadyThere
  let (place, files) ← p.files.openFile p.base (octetBytes path) (p.allowed .plain)
  match opening with
  | .append => return (.behind place, files)
  | .readWrite => return (.file place 0, files)
  | _ => return (.file place 0, files.setData place [])

/-- Connects a descriptor to a channel of its own. -/
def attach (descriptor : Nat) (channel : Channel) (reads writes : Bool) : ProcessM Unit :=
  modify fun p =>
    let (n, p) := p.addChannel channel
    p.connect descriptor (some ⟨n, reads, writes⟩)

/-- Connects a descriptor to a file; gives what is wrong if that is not possible. -/
def makeFile (guarded : Bool) (descriptor : Nat) (opening : Opening) (path : String) :
    ProcessM (Option String) := do
  let p ← get
  match opening with
  | .read =>
    match openToRead p path with
    | .error cause => return some (openFault false path cause)
    | .ok channel => attach descriptor channel true false
  | opening =>
    match openToWrite p opening (guarded && opening = .write) path with
    | .error cause => return some (openFault true path cause)
    | .ok (channel, files) =>
      set { p with files }
      attach descriptor channel (opening = .readWrite) true
  return none

/-- Connects a descriptor to what another one is connected to; gives what is wrong if that is
nothing. -/
def makeCopy (descriptor source : Nat) : ProcessM (Option String) := do
  let p ← get
  match p.descriptors.lookup source with
  | some target =>
    set (p.connect descriptor (some target))
    return none
  | none => return some (toString source ++ ": " ++ Process.causeText .badDescriptor)

/-- Makes a connection; gives whether that was possible, and says what is wrong if it was not. -/
def make (output : Script → InterpreterM String) (connection : Connection) :
    InterpreterM Bool := do
  let guarded := (← get).letters.contains 'C'
  let report (attempt : ProcessM (Option String)) : InterpreterM Bool := do
    match ← Interpreter.inProcess attempt with
    | none => return true
    | some fault =>
      Interpreter.warn fault
      return false
  match connection with
  | .file descriptor opening path => report (makeFile guarded descriptor opening path)
  | .copy descriptor (some source) => report (makeCopy descriptor source)
  | .copy descriptor none =>
    Interpreter.inProcess (modify (·.connect descriptor none))
    return true
  | .document descriptor text =>
    -- A document that cannot be expanded is no worse than a file that cannot be opened.
    let text? ← tryCatch (do return some (← expandText output .text text)) fun
      | .fault => return none
      | stop => throw stop
    match text? with
    | some text =>
      Interpreter.inProcess (attach descriptor (.stream [octetBytes text]) true false)
      return true
    | none => return false

/-- Makes connections up to the first one that fails; gives whether none did. -/
def makeAll (output : Script → InterpreterM String) : List Connection → InterpreterM Bool
  | [] => return true
  | connection :: rest => do
    if ← make output connection then makeAll output rest else return false

/-- Puts the descriptors of connections back to what they were. -/
def undoAll (connections : List Connection) (before : List (Nat × Descriptor)) :
    ProcessM Unit := modify fun p =>
  connections.foldl (fun p connection =>
    p.connect connection.descriptor (before.lookup connection.descriptor)) p

end Connection

/-- Runs an action with some connections, which may be kept; gives whether they could be made. -/
def connected (output : Script → InterpreterM String) (connections : List Connection)
    (keep : Bool) (action : InterpreterM Unit) : InterpreterM Bool := do
  let before := (← get).process.descriptors
  let undo : InterpreterM Unit := do
    if !keep then Interpreter.inProcess (Connection.undoAll connections before)
  tryFinally (do
    let made ← Connection.makeAll output connections
    if made then action
    return made) undo

end Script

end LineShell
