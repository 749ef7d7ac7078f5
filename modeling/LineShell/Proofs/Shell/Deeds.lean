import LineShell.Proofs.Shell.Commands
import LineShell.Proofs.Terminal.Steps
/-!
The deeds of a line.

Every builtin is quiet (`Builtin.quiet_command`), and resolving a command is quiet but for the entry
that says that the command was taken up (`does_dispatch`). So the deeds of a line are its commands,
in order, up to the one that ended it (`ends_runLine`). No screen has to be one that never fails,
and nothing is asked of the programs. A table of other builtins may take the place of the usual one
if its commands are quiet (`QuietTable`).
-/

set_option autoImplicit false

namespace LineShell

/-! ## Quiet actions -/

section Actions

variable {ε σ α β : Type} {machine : σ → Machine} {x : EStateM ε σ α} {f : α → EStateM ε σ β}

instance (machine : σ → Machine) :
    IsPreorder σ fun s t => (machine s).Reaches [] (machine t) where
  refl s := .refl (machine s)
  trans _ _ _ h h' := h.trans_quiet h'

theorem Quiet.bind (hx : Quiet machine x) (hf : ∀ a, Quiet machine (f a)) :
    Quiet machine (x >>= f) := Keeps.bind hx hf

theorem quiet_get_bind {f : σ → EStateM ε σ α} (hf : ∀ s, Quiet machine (f s)) :
    Quiet machine (get >>= f) := Keeps.get_bind hf

theorem Quiet.ite {c : Prop} [Decidable c] {y : EStateM ε σ α} (hx : Quiet machine x)
    (hy : Quiet machine y) : Quiet machine (if c then x else y) := Keeps.ite hx hy

theorem quiet_forM {f : β → EStateM ε σ PUnit} (hf : ∀ b, Quiet machine (f b)) (l : List β) :
    Quiet machine (l.forM f) := Keeps.forM hf l

end Actions

/-! ## Effects -/

namespace Effect

theorem quiet_note (notice : Notice) : Quiet id (note (.noticed notice)) :=
  fun m => ends_of_ok rfl (Machine.Step.noticed m notice).reaches

theorem quiet_writeBytes (bytes : Bytes) : Quiet id (writeBytes bytes) := by
  intro m
  have hstep := (Machine.Step.wrote m bytes).reaches
  unfold writeBytes
  refine ends_get_bind.2 (ends_modify_bind.2 (ends_modify_bind.2 ?_))
  split
  · exact ends_of_error rfl hstep
  · exact ends_of_ok rfl hstep

theorem quiet_write (text : String) : Quiet id (write text) := quiet_writeBytes (bytesOf text)

/-- **Flushing:** nothing is held back if it succeeds. -/
theorem ends_flush (m : Machine) :
    Ends flush m (fun _ n => n = m.flushed) fun n => n = m := by
  unfold flush
  refine ends_get_bind.2 ?_
  split
  · exact ends_of_error rfl rfl
  · exact ends_of_ok rfl rfl

theorem doesAt_launch {m : Machine} (host : Host) (command : Launch)
    (hheld : m.screen.pending = []) : DoesAt id [] (launch host command) m := by
  have heq := launch_eq host command m
  split at heq
  · exact ends_of_ok heq (Machine.Step.stranded m command hheld).reaches
  · exact ends_of_ok heq (Machine.Step.ran m command _ hheld).reaches

end Effect

namespace ShellM

variable {α : Type} {effect : Effect α} {shell : Shell}

/-- What an effect does to the machine is all that it does. -/
theorem ends_onMachine (shell : Shell) {holds : α → Machine → Prop} {broken : Machine → Prop}
    (h : Ends effect shell.machine holds broken) :
    Ends (onMachine effect) shell
      (fun a later => holds a later.machine ∧ later.environment = shell.environment)
      fun later => broken later.machine := by
  cases heffect : effect shell.machine with
  | ok a m =>
    have heq : onMachine effect shell = .ok a { shell with machine := m } := by
      rw [onMachine, heffect]
    exact ends_of_ok heq ⟨h.ok a m heffect, rfl⟩
  | error cause m =>
    have heq : onMachine effect shell = .error cause { shell with machine := m } := by
      rw [onMachine, heffect]
    exact ends_of_error heq (h.error cause m heffect)

theorem doesAt_onMachine {deeds : List Event} (h : DoesAt id deeds effect shell.machine) :
    DoesAt Shell.machine deeds (onMachine effect) shell :=
  (ends_onMachine shell h).mono (fun _ _ hreach => hreach.1) fun _ hreach => hreach

theorem quiet_onMachine (h : Quiet id effect) : Quiet Shell.machine (onMachine effect) :=
  fun shell => doesAt_onMachine (h shell.machine)

theorem quiet_write (text : String) : Quiet Shell.machine (write text) :=
  quiet_onMachine (Effect.quiet_write text)

theorem quiet_writeLine (text : String) : Quiet Shell.machine (writeLine text) :=
  quiet_onMachine (Effect.quiet_write _)

theorem quiet_flush : Quiet Shell.machine (onMachine Effect.flush) := by
  refine quiet_onMachine fun m => (Effect.ends_flush m).mono ?_ ?_
  · rintro _ _ rfl
    exact (Machine.Step.flushed m).reaches
  · rintro _ rfl
    exact .refl _

theorem quiet_modifyEnvironment (change : Environment → Environment) :
    Quiet Shell.machine (modifyEnvironment change) :=
  fun shell => ends_of_ok rfl (.refl shell.machine)

end ShellM

/-! ## Builtins -/

namespace Builtin

theorem quiet_printing {x : ShellM Unit} (hx : Quiet Shell.machine x) :
    Quiet Shell.machine (printing x) := fun shell => (hx shell).adaptExcept

/-- Changing the directory is nothing that the terminal sees. -/
theorem quiet_changeDir (target : Option String) :
    Quiet Shell.machine (perform (.changeDir target)) := by
  intro shell
  have heq := changeDir_eq target shell
  unfold perform
  refine ends_get_bind.2 ?_
  rw [heq]
  cases moveOf target shell.environment shell.machine.files shell.machine.base with
  | error failure => exact ends_of_error rfl (.refl _)
  | ok moved =>
    refine ends_of_ok rfl ?_
    exact (Machine.Step.aside shell.machine shell.machine.files moved.1
      shell.machine.errors).reaches

theorem quiet_perform (request : Request) : Quiet Shell.machine (perform request) := by
  cases request with
  | changeDir target => exact quiet_changeDir target
  | printDir =>
    refine quiet_get_bind fun shell => ?_
    exact (quiet_printing (ShellM.quiet_writeLine _)).bind fun _ => quiet_pure 0
  | print words newline =>
    exact (quiet_printing (ShellM.quiet_write _)).bind fun _ => quiet_pure 0
  | printVariables =>
    refine quiet_get_bind fun shell => ?_
    refine (quiet_forM (fun _ => ?_) _).bind fun _ => quiet_pure 0
    exact quiet_printing (ShellM.quiet_writeLine _)
  | unsetVariables names =>
    exact (quiet_printing (ShellM.quiet_modifyEnvironment _)).bind fun _ => quiet_pure 0
  | listBuiltins =>
    refine (quiet_printing (ShellM.quiet_writeLine _)).bind fun _ => ?_
    refine (quiet_forM (fun _ => quiet_printing (ShellM.quiet_writeLine _)) _).bind fun _ => ?_
    exact (quiet_printing (ShellM.quiet_writeLine _)).bind fun _ => quiet_pure 0
  | leave => exact (quiet_printing (ShellM.quiet_modifyEnvironment _)).bind fun _ => quiet_pure 0

section Reporting

variable {request : Request} {p q : Shell}

theorem run_of_ok {status : Nat} (h : perform request p = .ok status q) :
    run request p = .ok status q := by
  unfold run
  rw [h]

theorem run_of_error {failure : Failure} (h : perform request p = .error failure q) :
    run request p = (do ShellM.writeLine failure.message; return 1 : Command) q := by
  unfold run
  rw [h]

/-- **Where a request ends:** where its work does, or where the report of its failure does. -/
theorem ends_run_of_perform {holds : Nat → Shell → Prop} {broken failed : Shell → Prop}
    (hperform : Ends (perform request) p holds failed)
    (hreport : ∀ (failure : Failure) q, failed q →
      Ends (do ShellM.writeLine failure.message; return 1 : Command) q holds broken) :
    Ends (run request) p holds broken := by
  cases h : perform request p with
  | ok status q => exact ends_of_ok (run_of_ok h) (hperform.ok status q h)
  | error failure q =>
    have hends := hreport failure q (hperform.error failure q h)
    have hrun := run_of_error h
    refine ⟨fun status r hr => hends.ok status r ?_, fun cause r hr => hends.error cause r ?_⟩
    · rwa [← hrun]
    · rwa [← hrun]

end Reporting

/-- A request that fails says so, and does nothing else. -/
theorem quiet_run (request : Request) : Quiet Shell.machine (run request) := by
  intro shell
  refine ends_run_of_perform (quiet_perform request shell) fun failure later hreach => ?_
  have hreport : Quiet Shell.machine (do ShellM.writeLine failure.message; return 1 : Command) :=
    (ShellM.quiet_writeLine _).bind fun _ => quiet_pure 1
  exact (hreport later).mono (fun _ _ h => hreach.trans h) fun _ h => hreach.trans h

/-- **Every builtin is quiet.** -/
theorem quiet_command (builtin : Builtin) (arguments : List String) :
    Quiet Shell.machine (builtin.command arguments) := by
  have htell : ∀ text status, Quiet Shell.machine (tell text status) :=
    fun text status => (ShellM.quiet_writeLine _).bind fun _ => quiet_pure status
  unfold command
  cases builtin.grammar.read arguments with
  | error refusal => exact htell _ _
  | ok read => exact (htell _ _).ite (quiet_run _)

end Builtin

/-- A table makes quiet commands only. -/
def QuietTable (builtins : List BuiltinEntry) : Prop :=
  ∀ entry ∈ builtins, ∀ env name arguments command,
    entry.command? env name arguments = some command → Quiet Shell.machine command

theorem quietTable_builtins : QuietTable Builtin.table := by
  intro entry hentry env name arguments command hcommand
  obtain ⟨builtin, rfl⟩ := Builtin.exists_of_mem_table hentry hcommand
  exact builtin.quiet_command arguments

/-! ## Resolving a command -/

namespace Dispatch

variable {setup : Setup}

theorem quiet_notFound (name : String) : Quiet Shell.machine (notFound name) :=
  (ShellM.quiet_writeLine _).bind fun _ => quiet_pure _

theorem quiet_noted (notice : Notice) :
    Quiet Shell.machine (ShellM.onMachine (Effect.note (.noticed notice))) :=
  ShellM.quiet_onMachine (Effect.quiet_note notice)

theorem quiet_aliases (directory : Path) : Quiet Shell.machine (aliases directory) := by
  refine quiet_get_bind fun shell => ?_
  dsimp only
  cases shell.machine.files.readText shell.machine.base (directory.join Alias.filePath) with
  | ok contents => exact (quiet_forM (fun _ => quiet_noted _) _).bind fun _ => quiet_pure _
  | error cause =>
    cases cause with
    | missing => exact quiet_pure _
    | _ => exact (quiet_noted _).bind fun _ => quiet_pure _

theorem quiet_assign (word : String) : Quiet Shell.machine (assign word) := by
  refine quiet_get_bind fun shell => ?_
  cases shell.environment.assign? word with
  | some env => exact (ShellM.quiet_modifyEnvironment _).bind fun _ => quiet_pure _
  | none => exact (ShellM.quiet_writeLine _).bind fun _ => quiet_pure _

theorem quiet_print (pattern : String) (directory : Path) :
    Quiet Shell.machine (ShellM.onMachine (Wildcard.print pattern directory)) :=
  ShellM.quiet_onMachine (quiet_get_bind fun _ => Effect.quiet_write _)

theorem quiet_expandWildcard (name : String) (arguments : List String) (directory : Path) :
    Quiet Shell.machine (expandWildcard setup name arguments directory) := by
  unfold expandWildcard
  dsimp only
  split
  · exact (quiet_print _ directory).bind fun _ => quiet_pure _
  · exact quiet_notFound name

/-- A program starts with nothing held back, as the screen was flushed before. -/
theorem quiet_runProgram (name : String) (arguments : List String) :
    Quiet Shell.machine (runProgram setup name arguments) := by
  intro shell
  have hflush := ShellM.ends_onMachine shell (Effect.ends_flush shell.machine)
  unfold runProgram
  refine hflush.bind_mono ?_ fun _ flushed hflushed => ends_get_bind.2 ?_
  · intro later hlater
    rw [hlater]
    exact .refl _
  · have hreach : shell.machine.Reaches [] flushed.machine := by
      rw [hflushed.1]
      exact (Machine.Step.flushed shell.machine).reaches
    have hheld : flushed.machine.screen.pending = [] := by
      rw [hflushed.1]
      rfl
    refine Ends.mono (?_ : DoesAt Shell.machine [] _ flushed) (fun _ _ h => hreach.trans h)
      fun _ h => hreach.trans h
    obtain ⟨machine, environment⟩ := flushed
    dsimp only
    split
    · exact quiet_notFound name _
    · refine (ShellM.doesAt_onMachine (Effect.doesAt_launch _ _ hheld)).bind_quiet ?_
      intro status
      cases status with
      | none => exact quiet_notFound name
      | some status => exact quiet_pure _

/-- What becomes of a command once it was taken up. -/
def settle (setup : Setup) (words : List String) : ShellM Outcome := do
  match words with
  | [] => return .noOp
  | first :: _ =>
    if first = exitWord then return .exit
    match (← get).machine.currentDir with
    | .error cause =>
      ShellM.onMachine (Effect.note (.noticed .noWorkingDirectory))
      ShellM.writeLine ("psh: failed to get current working directory: " ++ cause.message)
      return .aborted
    | .ok directory =>
      match (← aliases directory).expand words with
      | [] => return .noOp
      | name :: arguments => resolve setup directory name arguments

theorem dispatch_eq_settle (words : List String) : dispatch setup words = (do
    ShellM.onMachine (Effect.note (.dispatched words))
    settle setup words) := rfl

/-! ### What every command keeps

A command is taken up, and then everything but the builtins is quiet. So a relation that quiet
actions keep is one that the command keeps if the builtins do. -/

section Keeping

variable {R : Shell → Shell → Prop} [IsPreorder Shell R]

omit [IsPreorder Shell R] in
theorem keeps_of_quiet {α : Type} {x : ShellM α}
    (hreaches : ∀ p q : Shell, p.machine.Reaches [] q.machine → R p q)
    (h : Quiet Shell.machine x) : Keeps R x := fun p =>
  (h p).mono (fun _ q => hreaches p q) fun q => hreaches p q

theorem keeps_runBuiltin (hreaches : ∀ p q : Shell, p.machine.Reaches [] q.machine → R p q)
    {command : Command} (h : Keeps R command) : Keeps R (runBuiltin command) := by
  refine (h.tryCatch fun _ => ?_).bind fun status => ?_
  · exact keeps_of_quiet hreaches ((quiet_noted _).bind fun _ => quiet_pure 1)
  · exact Keeps.get_bind fun _ => Keeps.pure _

theorem keeps_resolve (hreaches : ∀ p q : Shell, p.machine.Reaches [] q.machine → R p q)
    (htable : ∀ entry ∈ setup.builtins, ∀ env name arguments command,
      entry.command? env name arguments = some command → Keeps R command)
    (directory : Path) (name : String) (arguments : List String) :
    Keeps R (resolve setup directory name arguments) := by
  refine Keeps.get_bind fun shell => ?_
  refine Keeps.ite (keeps_of_quiet hreaches (quiet_assign name)) ?_
  cases hfound : setup.builtins.findSome? (·.command? shell.environment name arguments) with
  | some command =>
    obtain ⟨entry, hentry, hcommand⟩ := List.exists_of_findSome?_eq_some hfound
    exact keeps_runBuiltin hreaches (htable entry hentry _ _ _ _ hcommand)
  | none =>
    exact keeps_of_quiet hreaches
      ((quiet_expandWildcard name arguments directory).ite (quiet_runProgram name arguments))

theorem keeps_settle (hreaches : ∀ p q : Shell, p.machine.Reaches [] q.machine → R p q)
    (htable : ∀ entry ∈ setup.builtins, ∀ env name arguments command,
      entry.command? env name arguments = some command → Keeps R command)
    (words : List String) : Keeps R (settle setup words) := by
  unfold settle
  cases words with
  | nil => exact Keeps.pure _
  | cons first rest =>
    refine Keeps.ite (Keeps.pure _) (Keeps.get_bind fun shell => ?_)
    cases shell.machine.currentDir with
    | error cause =>
      refine keeps_of_quiet hreaches ((quiet_noted _).bind fun _ => ?_)
      exact (ShellM.quiet_writeLine _).bind fun _ => quiet_pure _
    | ok directory =>
      refine (keeps_of_quiet hreaches (quiet_aliases directory)).bind fun table => ?_
      cases table.expand (first :: rest) with
      | nil => exact Keeps.pure _
      | cons name arguments => exact keeps_resolve hreaches htable directory name arguments

end Keeping

end Dispatch

/-! ## Commands and lines -/

variable {setup : Setup}

/-- **Taking up a command** is one deed, and whatever becomes of the command is none. -/
theorem does_dispatch (htable : QuietTable setup.builtins) (words : List String) (shell : Shell) :
    DoesAt Shell.machine [.dispatched words] (dispatch setup words) shell := by
  have hnote : DoesAt Shell.machine [.dispatched words]
      (ShellM.onMachine (Effect.note (.dispatched words))) shell := by
    refine ShellM.doesAt_onMachine (ends_of_ok rfl ?_)
    exact (Machine.Step.dispatched shell.machine words).reaches
  rw [Dispatch.dispatch_eq_settle]
  exact hnote.bind_quiet fun _ => Dispatch.keeps_settle (fun _ _ h => h) htable words

/-- The deeds of the first commands of some. -/
def dispatches (commands : List String) (count : Nat) : List Event :=
  (commands.take count).map fun command => .dispatched (wordsOf command)

/-- **The deeds of a line** are its first commands, in order. -/
def DoesSome (commands : List String) (p q : Shell) : Prop :=
  ∃ count, p.machine.Reaches (dispatches commands count) q.machine

theorem ends_runCommands (htable : QuietTable setup.builtins) (commands : List String)
    (shell : Shell) : Ends (runCommands setup commands) shell
      (fun _ later => DoesSome commands shell later) (DoesSome commands shell) := by
  -- Where the rest breaks down its first commands were taken up, and so was this one.
  induction commands generalizing shell with
  | nil => exact ends_pure ⟨0, .refl _⟩
  | cons command rest ih =>
    have hdispatch := does_dispatch htable (wordsOf command) shell
    refine hdispatch.bind_mono (fun later h => ⟨1, h⟩) fun outcome next hnext => ?_
    have hmore {later : Shell} (h : DoesSome rest next later) :
        DoesSome (command :: rest) shell later := by
      obtain ⟨count, hreach⟩ := h
      exact ⟨count + 1, hnext.trans hreach⟩
    split
    · exact ends_pure ⟨1, hnext⟩
    · exact (ih next).bind_mono (fun _ h => hmore h) fun _ _ h => ends_pure (hmore h)

/-- **Running a line** takes up the first commands of it, and nothing is held back at the end. -/
theorem ends_runLine (htable : QuietTable setup.builtins) (line : String) (shell : Shell) :
    Ends (runLine setup line) shell
      (fun _ later => DoesSome (commandsOf line) shell later ∧
        later.machine.screen.pending = [])
      (DoesSome (commandsOf line) shell) := by
  refine Ends.bind (ends_runCommands htable (commandsOf line) shell) fun outcomes ran hran => ?_
  have hflush := ShellM.ends_onMachine ran (Effect.ends_flush ran.machine)
  obtain ⟨count, hreach⟩ := hran
  refine hflush.bind_mono ?_ fun _ flushed hflushed => ends_pure ?_
  · intro later hlater
    refine ⟨count, ?_⟩
    rw [hlater]
    exact hreach
  · rw [DoesSome, hflushed.1]
    exact ⟨⟨count, hreach.trans_quiet (Machine.Step.flushed ran.machine).reaches⟩, rfl⟩

end LineShell
