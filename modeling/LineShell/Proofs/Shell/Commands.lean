import LineShell.Proofs.Shell.Blind
/-!
Commands are blind.

Every builtin does the same in shells that are alike (`blind_command`); it may fail, which is then
reported in both. So does the resolution of a command (`blind_dispatch`), and it never fails on
screens that never fail, nor does a whole line (`blind_runLine`).
-/

set_option autoImplicit false

namespace LineShell

variable {host : Host} {alike : Shell → Shell → Prop} {mayFail : Prop} {p q : Shell}

/-! ## Changing the directory -/

/-- The directory that a path names, as one to be in. -/
def FileTree.workDirOf (files : FileTree) (base : Option Place) (path : Path) :
    Except Cause WorkDir :=
  match files.look base path with
  | .ok (place, .dir number rights) => if rights.pass then .ok ⟨place, number⟩ else .error .denied
  | .ok _ => .error .notDirectory
  | .error cause => .error cause

theorem Machine.enter_eq (m : Machine) (path : Path) :
    m.enter path = (m.files.workDirOf m.base path).map fun dir => { m with workDir := dir } := by
  unfold Machine.enter FileTree.workDirOf
  cases m.files.look m.base path with
  | error cause => rfl
  | ok found =>
    rw [except_ok_bind]
    obtain ⟨place, node⟩ := found
    cases node with
    | dir number rights =>
      dsimp only
      cases rights.pass with
      | false => rfl
      | true => rfl
    | file data rights => rfl
    | link target => rfl
    | device _ => rfl

namespace Builtin

/-- Where `cd` leads, and the environment it leaves. -/
def moveOf (target : Option String) (env : Environment) (files : FileTree) (base : Option Place) :
    Except Failure (WorkDir × Environment) := do
  let requested ← destination env target
  let resolved ← (files.canonical base requested).mapError (.unreachable requested)
  if !files.isDir base resolved then .error (.notDirectory requested)
  let dir ← (files.workDirOf base resolved).mapError (.unreachable resolved)
  let moved := { env with currentDir := resolved }
  return (dir, (moved.set "OLDPWD" (stringOf env.currentDir)).set "PWD" (stringOf resolved))

theorem changeDir_eq (target : Option String) (shell : Shell) : changeDir target shell
    = (moveOf target shell.environment shell.machine.files shell.machine.base).map fun moved =>
        { machine := { shell.machine with workDir := moved.1 }, environment := moved.2 } := by
  obtain ⟨machine, environment⟩ := shell
  unfold changeDir moveOf
  dsimp only
  cases destination environment target with
  | error failure => rfl
  | ok requested =>
    rw [except_ok_bind, except_ok_bind]
    cases machine.files.canonical machine.base requested with
    | error cause => rfl
    | ok resolved =>
      dsimp only [Except.mapError]
      rw [except_ok_bind, except_ok_bind]
      cases machine.files.isDir machine.base resolved with
      | false => rfl
      | true =>
        rw [Machine.enter_eq]
        cases machine.files.workDirOf machine.base resolved with
        | error cause => rfl
        | ok dir => rfl

/-! ## Builtins -/

/-- A text that is printed, whatever the shell. -/
theorem blind_printing {x : ShellM Unit} (hx : Blind host True x) :
    Blind host True (printing x) := by
  intro alike hl p q h
  have hagree := hx alike hl p q h
  unfold printing EStateM.adaptExcept
  generalize x p = r at hagree
  generalize x q = s at hagree
  cases hagree with
  | ok v halike => exact .ok v halike
  | error hmay cause halike => exact .error hmay (Failure.output cause) halike

/-- Changing the directory leads to shells that are alike, or fails for the same reason. -/
theorem agree_changeDir (hl : Likeness host alike) (h : alike p q) (target : Option String) :
    Agree alike True (perform (.changeDir target) p) (perform (.changeDir target) q) := by
  have hp := changeDir_eq target p
  rw [hl.environment h, hl.files h, hl.base h] at hp
  have hq := changeDir_eq target q
  unfold perform
  dsimp only
  rw [get_bind, get_bind, hp, hq]
  cases moveOf target q.environment q.machine.files q.machine.base with
  | error failure => exact .error trivial failure h
  | ok moved =>
    obtain ⟨dir, env⟩ := moved
    exact .ok 0 (hl.moved h dir env)

theorem blind_perform (request : Request) : Blind host True (perform request) := by
  cases request with
  | changeDir target => exact fun _ hl _ _ h => agree_changeDir hl h target
  | printDir =>
    refine blind_get_bind (fun s => ?_) fun hl h => by rw [hl.environment h]
    exact (blind_printing (blind_writeLine _)).bind fun _ => blind_pure 0
  | print words newline => exact (blind_printing (blind_write _)).bind fun _ => blind_pure 0
  | printVariables =>
    refine blind_get_bind (fun s => ?_) fun hl h => by rw [hl.environment h]
    exact (blind_forM (fun _ => blind_printing (blind_writeLine _)) _).bind fun _ => blind_pure 0
  | unsetVariables names =>
    exact (blind_printing (blind_modifyEnvironment _)).bind fun _ => blind_pure 0
  | listBuiltins =>
    refine (blind_printing (blind_writeLine _)).bind fun _ => ?_
    refine (blind_forM (fun _ => blind_printing (blind_writeLine _)) _).bind fun _ => ?_
    exact (blind_printing (blind_writeLine _)).bind fun _ => blind_pure 0
  | leave => exact (blind_printing (blind_modifyEnvironment _)).bind fun _ => blind_pure 0

/-- A request that fails is reported in both shells. -/
theorem blind_run (request : Request) : Blind host True (run request) := by
  intro alike hl p q h
  have hagree := blind_perform request alike hl p q h
  unfold run
  generalize perform request p = r at hagree
  generalize perform request q = s at hagree
  cases hagree with
  | ok status halike => exact .ok status halike
  | error hmay failure halike =>
    have hreport : Blind host True (do ShellM.writeLine failure.message; return 1 : Command) :=
      (blind_writeLine _).bind fun _ => blind_pure 1
    exact hreport alike hl _ _ halike

/-- **Every builtin is blind.** -/
theorem blind_command (builtin : Builtin) (arguments : List String) :
    Blind host True (builtin.command arguments) := by
  have htell : ∀ text status, Blind host True (tell text status) :=
    fun text status => (blind_writeLine _).bind fun _ => blind_pure status
  unfold command
  cases builtin.grammar.read arguments with
  | error refusal => exact htell _ _
  | ok read => exact (htell _ _).ite (blind_run _)

end Builtin

/-- A table makes blind commands only. -/
def BlindTable (host : Host) (builtins : List BuiltinEntry) : Prop :=
  ∀ entry ∈ builtins, ∀ env name arguments command,
    entry.command? env name arguments = some command → Blind host True command

/-- What the usual table makes is a builtin's command. -/
theorem Builtin.exists_of_mem_table {entry : BuiltinEntry} (hentry : entry ∈ Builtin.table)
    {env : Environment} {name : String} {arguments : List String} {command : Command}
    (hcommand : entry.command? env name arguments = some command) :
    ∃ builtin : Builtin, command = builtin.command arguments := by
  obtain ⟨builtin, -, rfl⟩ := List.mem_map.mp hentry
  have hsome : (if name = builtin.name then some (builtin.command arguments) else none)
      = some command := hcommand
  exact ⟨builtin, (Option.some.inj (Option.ite_none_right_eq_some.1 hsome).2).symm⟩

theorem blindTable_builtins (host : Host) : BlindTable host Builtin.table := by
  intro entry hentry env name arguments command hcommand
  obtain ⟨builtin, rfl⟩ := Builtin.exists_of_mem_table hentry hcommand
  exact builtin.blind_command arguments

/-! ## Resolving a command -/

namespace Dispatch

variable {setup : Setup}

theorem blind_notFound (name : String) : Blind host mayFail (notFound name) :=
  (blind_writeLine _).bind fun _ => blind_pure _

theorem blind_aliases (directory : Path) : Blind host mayFail (aliases directory) := by
  refine blind_get_bind (fun s => ?_) fun hl h => by dsimp only; rw [hl.files h, hl.base h]
  dsimp only
  cases s.machine.files.readText s.machine.base (directory.join Alias.filePath) with
  | ok contents => exact (blind_forM (fun _ => blind_note _) _).bind fun _ => blind_pure _
  | error cause =>
    cases cause with
    | missing => exact blind_pure _
    | _ => exact (blind_note _).bind fun _ => blind_pure _

theorem blind_assign (word : String) : Blind host mayFail (assign word) := by
  refine blind_get_bind (fun s => ?_) fun hl h => by rw [hl.environment h]
  cases s.environment.assign? word with
  | some env => exact (blind_modifyEnvironment _).bind fun _ => blind_pure _
  | none => exact (blind_writeLine _).bind fun _ => blind_pure _

/-- A command that fails for good is noted, and nothing else comes of it. -/
theorem blind_runBuiltin {command : Command} (h : Blind host True command) :
    Blind host mayFail (runBuiltin command) := by
  have hnote : ∀ cause : Cause, Blind host mayFail
      ((fun _ => do
        ShellM.onMachine (Effect.note (.noticed .builtinFailed))
        return 1 : Cause → Command) cause) :=
    fun _ => (blind_note _).bind fun _ => blind_pure 1
  refine (h.tryCatch hnote).bind fun status => ?_
  exact blind_get_bind (fun _ => blind_pure _) fun hl h => by rw [hl.environment h]

/-- What a pattern matches is the same in shells that are alike. -/
theorem blind_print (pattern : String) (directory : Path) :
    Blind host mayFail (ShellM.onMachine (Wildcard.print pattern directory)) := by
  refine blind_onMachine () (fun m => m.wrote (Wildcard.report pattern
    (Wildcard.expand m.files m.base pattern directory) ++ "\n")) (fun {m} hm => ?_) fun hl h => ?_
  · unfold Wildcard.print
    rw [get_bind]
    exact Effect.write_of_neverFails hm _
  · rw [hl.files h, hl.base h]
    exact hl.wrote h _

theorem blind_expandWildcard (name : String) (arguments : List String) (directory : Path) :
    Blind host mayFail (expandWildcard setup name arguments directory) := by
  unfold expandWildcard
  dsimp only
  split
  · exact (blind_print _ directory).bind fun _ => blind_pure _
  · exact blind_notFound name

/-- Nothing is held back when a program starts, so what it prints lands in the same place. -/
theorem blind_runProgram (name : String) (arguments : List String) (hhost : setup.host = host) :
    Blind host mayFail (runProgram setup name arguments) := by
  intro alike hl p q h
  have hp := onMachine_flush (hl.left h)
  have hq := onMachine_flush (hl.right h)
  have hflushed := hl.flushed h
  have hfiles := hl.files hflushed
  have hbase := hl.base hflushed
  rw [hl.environment h] at hflushed
  unfold runProgram
  rw [bind_of_ok hp, bind_of_ok hq, get_bind, get_bind]
  dsimp only
  rw [hl.environment h, hfiles, hbase]
  cases Program.find? q.machine.flushed.files q.machine.flushed.base (bytesOf name)
      (bytesOf ((q.environment.get? "PATH").getD "")) q.environment.currentDir with
  | none => exact blind_notFound name alike hl _ _ hflushed
  | some program =>
    dsimp only
    rw [hhost]
    refine (agree_launch hl hflushed rfl rfl _).bind fun status p' q' h' => ?_
    cases status with
    | none => exact blind_notFound name alike hl p' q' h'
    | some status => exact .ok _ h'

theorem blind_resolve (hhost : setup.host = host) (htable : BlindTable host setup.builtins)
    (directory : Path) (name : String) (arguments : List String) :
    Blind host mayFail (resolve setup directory name arguments) := by
  refine blind_get_bind (fun s => ?_) fun hl h => by dsimp only; rw [hl.environment h]
  refine (blind_assign name).ite ?_
  cases hfound : setup.builtins.findSome? (·.command? s.environment name arguments) with
  | some command =>
    obtain ⟨entry, hentry, hcommand⟩ := List.exists_of_findSome?_eq_some hfound
    exact blind_runBuiltin (htable entry hentry _ _ _ _ hcommand)
  | none =>
    exact (blind_expandWildcard name arguments directory).ite
      (blind_runProgram name arguments hhost)

end Dispatch

/-! ## Commands and lines -/

variable {setup : Setup}

/-- **Resolving and running a command is blind,** and never fails on screens that never fail. -/
theorem blind_dispatch (hhost : setup.host = host) (htable : BlindTable host setup.builtins)
    (words : List String) : Blind host mayFail (dispatch setup words) := by
  refine (blind_note _).bind fun _ => ?_
  cases words with
  | nil => exact blind_pure _
  | cons first rest =>
    dsimp only
    by_cases hexit : first = Dispatch.exitWord
    · rw [if_pos hexit]
      exact blind_pure _
    · rw [if_neg hexit]
      refine blind_get_bind (fun s => ?_) fun hl h => by rw [hl.currentDir h]
      cases s.machine.currentDir with
      | error cause =>
        exact (blind_note _).bind fun _ => (blind_writeLine _).bind fun _ => blind_pure _
      | ok directory =>
        refine (Dispatch.blind_aliases directory).bind fun table => ?_
        cases table.expand (first :: rest) with
        | nil => exact blind_pure _
        | cons name arguments => exact Dispatch.blind_resolve hhost htable directory name arguments

theorem blind_runCommands (hhost : setup.host = host) (htable : BlindTable host setup.builtins)
    (commands : List String) : Blind host mayFail (runCommands setup commands) := by
  induction commands with
  | nil => exact blind_pure []
  | cons command rest ih =>
    refine (blind_dispatch hhost htable _).bind fun outcome => ?_
    exact (blind_pure _).ite (ih.bind fun _ => blind_pure _)

/-- **Running a line is blind.** -/
theorem blind_runLine (hhost : setup.host = host) (htable : BlindTable host setup.builtins)
    (line : String) : Blind host mayFail (runLine setup line) :=
  (blind_runCommands hhost htable _).bind fun _ => blind_flush.bind fun _ => blind_pure _

end LineShell
