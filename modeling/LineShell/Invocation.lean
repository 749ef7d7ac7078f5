import LineShell.Session
/-!
The command line of the shell: its options, where the logs are, and the exit status.

With a line among the options that one line is run and the history stays in memory. Without it
lines are read from the input, and the history has its two logs.
-/

set_option autoImplicit false

namespace LineShell

/-- What the shell is asked for on its command line. -/
structure Invocation where
  historyFile : Option Path
  sessionDir : Option Path
  historyCapacity : Nat
  maxLineLength : Nat
  wildcardTarget : WildcardTarget
  /-- The one line to run. -/
  command : Option String
deriving DecidableEq, Repr

namespace Invocation

/-- The name of the shell. -/
def programName : String := "psh"

/-- What the shell takes on its command line. -/
def grammar : Grammar where
  description := "A small interactive shell."
  options :=
    [⟨"history-file", none, .text, "long-lived history log (default: ./.files/MEMORY)"⟩,
     ⟨"session-dir", none, .text,
       "directory for per-session history logs (default: ./.files/sessions)"⟩,
     ⟨"history-capacity", none, .number, "number of history entries kept in memory"⟩,
     ⟨"max-line-length", none, .number, "maximum number of characters on one input line"⟩,
     ⟨"wildcard-on-command-name", none, .switch,
       "expand a leading wildcard pattern itself instead of the next word"⟩,
     ⟨"command", some 'c', .text, "run one line and exit"⟩]
  positional := .absent

/-- The invocation that arguments make. -/
def ofArguments (a : Arguments) : Invocation :=
  let defaults : Settings := {}
  { historyFile := (a.value? "history-file").map bytesOf
    sessionDir := (a.value? "session-dir").map bytesOf
    historyCapacity := (a.number? "history-capacity").getD defaults.historyCapacity
    maxLineLength := (a.number? "max-line-length").getD defaults.maxLineLength
    wildcardTarget :=
      if a.has "wildcard-on-command-name" then .commandName else defaults.wildcardTarget
    command := a.value? "command" }

/-- The settings of the session, with the logs that it has. -/
def settings (i : Invocation) (logs : Option Logs) : Settings where
  logs
  historyCapacity := i.historyCapacity
  maxLineLength := i.maxLineLength
  wildcardTarget := i.wildcardTarget

/-! ## Failures -/

/-- Why an invocation fails. -/
inductive Failure where
  | noCurrentDir (cause : Cause)
  /-- A directory for the logs that cannot be made. -/
  | notMade (directory : Path) (cause : Cause)
  | session (error : SessionError)
deriving DecidableEq, Repr

/-- The text of a failure. -/
def Failure.message : Failure → String
  | .noCurrentDir cause => "can't get current directory: " ++ cause.message
  | .notMade directory cause => "can't create " ++ stringOf directory ++ ": " ++ cause.message
  | .session error => error.message

/-! ## Logs -/

/-- Makes a directory for logs. -/
def makeLogDir (directory : Path) : EStateM Failure Machine Unit := do
  let m ← get
  let (files, fault) := m.files.makeDirs m.base directory .all
  set { m with files }
  match fault with
  | none => return
  | some cause => throw (.notMade directory cause)

/-- The logs of an interactive session, whose directories are made. A session log has a name of its
own. -/
def prepareLogs (i : Invocation) (logName : String) : EStateM Failure Machine Logs := do
  let directory ← match (← get).currentDir with
    | .ok directory => pure directory
    | .error cause => throw (.noCurrentDir cause)
  let logsDir := directory.join (bytesOf ".files")
  let memory := i.historyFile.getD (logsDir.join (bytesOf "MEMORY"))
  let sessionDir := i.sessionDir.getD (logsDir.join (bytesOf "sessions"))
  -- A log that is named without a directory lies in the current one, which is there.
  match memory.parent? with
  | some parent => unless parent.isEmpty do makeLogDir parent
  | none => pure ()
  makeLogDir sessionDir
  return ⟨memory, sessionDir.join (bytesOf logName)⟩

/-! ## Running -/

/-- What the shell is run with. -/
structure World where
  machine : Machine
  host : Host
  vars : List (Bytes × Bytes)
  /-- The name of the session log, which no other session has. -/
  logName : String

/-- The exit status after a line: that of its last command. -/
def statusOf (outcomes : List Outcome) : Nat :=
  match outcomes.getLast? with
  | some (.builtin status) => status % 256
  | some (.external status) => status % 256
  | some .notFound => 127
  | _ => 0

/-- Runs one line. -/
def runCommand (i : Invocation) (w : World) (line : String) : Machine × Except Failure Nat :=
  let settings := i.settings none
  let session := Session.start settings w.machine w.vars
  match runLine (Session.setupOf settings w.host Builtin.table) (finishLine line) session.shell with
  | .ok outcomes shell => (shell.machine, .ok (statusOf outcomes))
  | .error cause shell => (shell.machine, .error (.session (.terminal cause)))

/-- Reads and runs lines. -/
def runInteractive (i : Invocation) (w : World) : Machine × Except Failure Nat :=
  match i.prepareLogs w.logName w.machine with
  | .error failure machine => (machine, .error failure)
  | .ok logs machine =>
    -- The session takes the directory as it is after the logs' directories were made.
    let settings := i.settings (some logs)
    let session := Session.start settings machine w.vars
    match Session.repl settings (Session.setupOf settings w.host Builtin.table) session with
    | .ok _ session => (session.shell.machine, .ok 0)
    | .error error session => (session.shell.machine, .error (.session error))

/-- The machine with a text on its error output. -/
def withErrors (m : Machine) (text : String) : Machine :=
  { m with errors := m.errors ++ bytesOf text }

/-- The machine with a text on its screen. -/
def withOutput (m : Machine) (text : String) : Machine :=
  { m with screen := m.screen.land (bytesOf text) }

/-- What is said about arguments that are refused: the reason, and where to read more. An empty line
stands between the two, except where help was asked for already. -/
def refusalText (refusal : Refusal) : String :=
  let gap := if refusal = .trailingAfterHelp then "\n" else "\n\n"
  refusal.message ++ gap ++ "Run " ++ programName ++ " --help for more information.\n"

/-- **Runs the shell** with the arguments of its command line: the machine afterwards, with nothing
held back, and the exit status. -/
def run (w : World) (arguments : List String) : Machine × Nat :=
  match grammar.read arguments with
  | .error refusal => (withErrors w.machine (refusalText refusal), 1)
  | .ok read =>
    if read.help then
      (withOutput w.machine (Help.text programName grammar ++ "\n\n"), 0)
    else
      let i := ofArguments read
      let (m, result) := match i.command with
        | some line => i.runCommand w line
        | none => i.runInteractive w
      let m := { m with screen := m.screen.settled }
      match result with
      | .ok status => (m, status)
      | .error failure => (withErrors m (programName ++ ": " ++ failure.message ++ "\n"), 1)

end Invocation

end LineShell
