import LineShell.Proofs.Shell.Starting
/-!
What can stop a command.

The screen may refuse what is written to it, at any byte, or refuse to be flushed. A builtin tells
of a failure on the screen, so the telling may fail too; but a command of the shell that fails has a
status all the same, and that is zero or one for every builtin (`Dispatch.dispatch_of_calls`). Any
other command is stopped where something is refused, and nothing else stops it: a command or a line
that fails did so because the screen refused its last step (`onlyRefused_dispatch`,
`onlyRefused_runLine`).
-/

set_option autoImplicit false

namespace LineShell

/-! ## The status of a builtin -/

section Values

variable {ε σ α β : Type}

/-- An action that gives only values of one kind, if it gives any. -/
def Gives (holds : α → Prop) (x : EStateM ε σ α) : Prop :=
  ∀ s, Ends x s (fun a _ => holds a) fun _ => True

variable {holds : α → Prop}

theorem gives_pure {a : α} (h : holds a) : Gives holds (pure a : EStateM ε σ α) :=
  fun _ => ends_pure h

/-- Of a sequence the last action gives the value. -/
theorem Gives.after (x : EStateM ε σ β) {f : β → EStateM ε σ α} (hf : ∀ b, Gives holds (f b)) :
    Gives holds (x >>= f) := by
  intro s
  have hany : Ends x s (fun _ _ => True) fun _ => True :=
    ⟨fun _ _ _ => trivial, fun _ _ _ => trivial⟩
  exact hany.bind fun b t _ => hf b t

end Values

namespace Builtin

theorem gives_perform (request : Request) : Gives (· = 0) (perform request) := by
  cases request with
  | changeDir target =>
    intro p
    refine ends_get_bind.2 ?_
    cases changeDir target p with
    | ok moved => exact ends_of_ok rfl rfl
    | error failure => exact ends_of_error rfl trivial
  | printDir => exact .after _ fun _ => .after _ fun _ => gives_pure rfl
  | print words newline => exact .after _ fun _ => gives_pure rfl
  | printVariables => exact .after _ fun _ => .after _ fun _ => gives_pure rfl
  | unsetVariables names => exact .after _ fun _ => gives_pure rfl
  | listBuiltins =>
    exact .after _ fun _ => .after _ fun _ => .after _ fun _ => gives_pure rfl
  | leave => exact .after _ fun _ => gives_pure rfl

theorem gives_run (request : Request) : Gives (· ≤ 1) (run request) := by
  intro p
  have hperform : Ends (perform request) p (fun status _ => status ≤ 1) fun _ => True :=
    (gives_perform request p).mono (fun _ _ h => by omega) fun _ h => h
  refine ends_run_of_perform hperform fun failure q _ => ?_
  have hreport : Gives (· ≤ 1) (do ShellM.writeLine failure.message; return 1 : Command) :=
    .after _ fun _ => gives_pure (Nat.le_refl 1)
  exact hreport q

theorem gives_tell (text : String) {status : Nat} (h : status ≤ 1) :
    Gives (· ≤ 1) (tell text status) := .after _ fun _ => gives_pure h

/-- **The status of a builtin** is zero or one, if it has one. -/
theorem gives_command (b : Builtin) (arguments : List String) :
    Gives (· ≤ 1) (b.command arguments) := by
  unfold command
  cases b.grammar.read arguments with
  | error refusal => exact gives_tell _ (Nat.le_refl 1)
  | ok read =>
    dsimp only
    by_cases hhelp : read.help = true
    · rw [if_pos hhelp]
      exact gives_tell _ (Nat.zero_le 1)
    · rw [if_neg hhelp]
      exact gives_run _

end Builtin

/-! ## What the screen refuses -/

/-- **The screen refuses something:** it does not take all of a text, or cannot be flushed. -/
def Machine.Refuses (m : Machine) (cause : Cause) (n : Machine) : Prop :=
  (∃ text, Effect.write text m = .error cause n) ∨ Effect.flush m = .error cause n

theorem Screen.NeverFails.not_refuses {m n : Machine} {cause : Cause} (h : m.screen.NeverFails) :
    ¬ m.Refuses cause n := by
  rintro (⟨text, hwrite⟩ | hflush)
  · rw [Effect.write_of_neverFails h] at hwrite
    cases hwrite
  · rw [Effect.flush_of_neverFails h] at hflush
    cases hflush

/-- **Only the screen can stop an action:** if it fails, it was doing something that the screen
refused, and failed for that cause. -/
def OnlyRefused {α : Type} (x : ShellM α) (p : Shell) : Prop :=
  ∀ cause q, x p = .error cause q →
    ∃ deeds m, p.machine.Reaches deeds m ∧ m.Refuses cause q.machine

section Actions

variable {α β : Type} {x : ShellM α} {f : α → ShellM β} {p : Shell}

theorem onlyRefused_of_ok {a : α} {q : Shell} (h : x p = .ok a q) : OnlyRefused x p := by
  intro cause r hr
  rw [h] at hr
  cases hr

theorem onlyRefused_pure (a : α) : OnlyRefused (pure a) p := onlyRefused_of_ok (pure_eq a)

/-- What follows is stopped on the way from where it starts, which is on the way from the start. -/
theorem OnlyRefused.bind (hx : OnlyRefused x p) (hf : ∀ a q, x p = .ok a q →
    (∃ deeds, p.machine.Reaches deeds q.machine) ∧ OnlyRefused (f a) q) :
    OnlyRefused (x >>= f) p := by
  intro cause r hr
  cases h : x p with
  | ok a q =>
    rw [bind_of_ok h] at hr
    obtain ⟨⟨deeds, hfirst⟩, hnext⟩ := hf a q h
    obtain ⟨more, m, hreach, hrefused⟩ := hnext cause r hr
    exact ⟨_, m, hfirst.trans hreach, hrefused⟩
  | error cause' q =>
    rw [bind_of_error h] at hr
    cases hr
    exact hx _ _ h

theorem OnlyRefused.bind_does {deeds : List Event} (hx : OnlyRefused x p)
    (hdoes : DoesAt Shell.machine deeds x p)
    (hf : ∀ a q, x p = .ok a q → OnlyRefused (f a) q) : OnlyRefused (x >>= f) p :=
  hx.bind fun a q h => ⟨⟨deeds, hdoes.ok a q h⟩, hf a q h⟩

/-- A value that is made of another one is never refused. -/
theorem OnlyRefused.bind_pure (hx : OnlyRefused x p) (g : α → β) :
    OnlyRefused (x >>= fun a => pure (g a)) p := by
  intro cause r hr
  cases h : x p with
  | ok a q =>
    rw [bind_of_ok h] at hr
    cases hr
  | error cause' q =>
    rw [bind_of_error h] at hr
    cases hr
    exact hx _ _ h

theorem onlyRefused_get_bind {g : Shell → ShellM β} (h : OnlyRefused (g p) p) :
    OnlyRefused (get >>= g) p := h

theorem onlyRefused_onMachine {effect : Effect α}
    (h : ∀ cause n, effect p.machine = .error cause n → p.machine.Refuses cause n) :
    OnlyRefused (ShellM.onMachine effect) p := by
  intro cause q hq
  unfold ShellM.onMachine at hq
  cases heffect : effect p.machine with
  | ok a m =>
    rw [heffect] at hq
    cases hq
  | error cause' m =>
    rw [heffect] at hq
    cases hq
    exact ⟨[], p.machine, .refl _, h cause m heffect⟩

theorem onlyRefused_writeLine (text : String) (p : Shell) :
    OnlyRefused (ShellM.writeLine text) p :=
  onlyRefused_onMachine fun _ _ h => .inl ⟨text ++ "\n", h⟩

theorem onlyRefused_flush (p : Shell) : OnlyRefused (ShellM.onMachine Effect.flush) p :=
  onlyRefused_onMachine fun _ _ h => .inr h

theorem onlyRefused_note (event : Event) (p : Shell) :
    OnlyRefused (ShellM.onMachine (Effect.note event)) p :=
  onlyRefused_of_ok (onMachine_note event p)

end Actions

theorem onlyRefused_launch (host : Host) (launch : Launch) (p : Shell) :
    OnlyRefused (ShellM.onMachine (Effect.launch host launch)) p := by
  refine onlyRefused_onMachine fun cause n h => ?_
  rw [Effect.launch_eq] at h
  cases hreport : host.run p.machine.surroundings launch with
  | none =>
    rw [hreport] at h
    cases h
  | some report =>
    rw [hreport] at h
    cases h

/-! ## Resolving a command -/

namespace Dispatch

variable {setup : Setup}

theorem onlyRefused_notFound (name : String) (p : Shell) : OnlyRefused (notFound name) p :=
  (onlyRefused_writeLine _ p).bind_pure _

theorem onlyRefused_aliases (directory : Path) (p : Shell) :
    OnlyRefused (aliases directory) p := by
  obtain ⟨_, _, haliases, -⟩ := (ends_aliases directory p).exists_ok fun _ => id
  exact onlyRefused_of_ok haliases

theorem onlyRefused_assign (word : String) (p : Shell) : OnlyRefused (assign word) p := by
  refine onlyRefused_get_bind ?_
  cases p.environment.assign? word with
  | some env => exact onlyRefused_of_ok rfl
  | none =>
    exact (onlyRefused_writeLine _ p).bind_pure _

/-- A command of the shell is not stopped, whatever becomes of it. -/
theorem exists_runBuiltin_eq {holds : Nat → Prop} {command : Command} (h : Gives holds command)
    (hone : holds 1) (p : Shell) : ∃ status q, holds status ∧ runBuiltin command p
      = .ok (if q.environment.shouldExit then .exit else .builtin status) q := by
  cases hcommand : command p with
  | ok status q => exact ⟨status, q, (h p).ok status q hcommand, runBuiltin_of_ok hcommand⟩
  | error cause q =>
    let noted : Shell := { q with machine := q.machine.record (.noticed .builtinFailed) }
    exact ⟨1, noted, hone, runBuiltin_of_error hcommand⟩

theorem onlyRefused_runBuiltin (command : Command) (p : Shell) :
    OnlyRefused (runBuiltin command) p := by
  have hgives : Gives (fun _ => True) command :=
    fun _ => ⟨fun _ _ _ => trivial, fun _ _ _ => trivial⟩
  obtain ⟨_, _, -, hrun⟩ := exists_runBuiltin_eq hgives trivial p
  exact onlyRefused_of_ok hrun

theorem onlyRefused_print (pattern : String) (directory : Path) (p : Shell) :
    OnlyRefused (ShellM.onMachine (Wildcard.print pattern directory)) p := by
  refine onlyRefused_onMachine fun cause n h => .inl ⟨Wildcard.report pattern
    (Wildcard.expand p.machine.files p.machine.base pattern directory) ++ "\n", ?_⟩
  unfold Wildcard.print at h
  rw [get_bind] at h
  exact h

theorem onlyRefused_expandWildcard (name : String) (arguments : List String) (directory : Path)
    (p : Shell) : OnlyRefused (expandWildcard setup name arguments directory) p := by
  unfold expandWildcard
  dsimp only
  split
  · exact (onlyRefused_print _ directory p).bind_pure _
  · exact onlyRefused_notFound name p

/-- Starting a program is not refused; but the screen has to be flushed before, and that may be. -/
theorem onlyRefused_runProgram (name : String) (arguments : List String) (p : Shell) :
    OnlyRefused (runProgram setup name arguments) p := by
  have hflush := ShellM.ends_onMachine p (Effect.ends_flush p.machine)
  unfold runProgram
  refine (onlyRefused_flush p).bind_does (ShellM.quiet_flush p) fun _ q hq => ?_
  refine onlyRefused_get_bind ?_
  dsimp only
  split
  · exact onlyRefused_notFound name q
  · next program _ =>
    have hheld : q.machine.screen.pending = [] := by
      rw [(hflush.ok _ q hq).1]
      rfl
    have hlaunch := ShellM.doesAt_onMachine (Effect.doesAt_launch setup.host
      (launchOf q.environment program (name :: arguments)) hheld)
    refine (onlyRefused_launch _ _ q).bind_does hlaunch fun status r _ => ?_
    cases status with
    | none => exact onlyRefused_notFound name r
    | some status => exact onlyRefused_pure _

theorem onlyRefused_resolve (directory : Path) (name : String) (arguments : List String)
    (p : Shell) : OnlyRefused (resolve setup directory name arguments) p := by
  refine onlyRefused_get_bind ?_
  dsimp only
  split
  · exact onlyRefused_assign name p
  split
  · exact onlyRefused_runBuiltin _ p
  split
  · exact onlyRefused_expandWildcard name arguments directory p
  · exact onlyRefused_runProgram name arguments p

/-- **A command that comes to a builtin is not stopped.** -/
theorem dispatch_of_calls {p : Shell} (hbuiltins : setup.builtins = Builtin.table)
    {directory : Path} (hdirectory : p.machine.currentDir = .ok directory) {words : List String}
    {b : Builtin} {arguments : List String}
    (hwords : (aliasesIn p.machine directory).spliced words = b.name :: arguments) :
    ∃ outcome q, dispatch setup words p = .ok outcome q ∧
      outcome ∈ [Outcome.exit, .builtin 0, .builtin 1] := by
  by_cases hexit : words.head? = some exitWord
  · exact ⟨.exit, _, dispatch_of_exit setup p hexit, by simp⟩
  obtain ⟨p', -, -, -, hdispatch⟩ := exists_dispatch_eq_resolve hdirectory hexit hwords
  obtain ⟨status, q, hstatus, hrun⟩ :=
    exists_runBuiltin_eq (b.gives_command arguments) (Nat.le_refl 1) p'
  refine ⟨_, q, by rw [hdispatch, resolve_of_builtin hbuiltins, hrun], ?_⟩
  split
  · simp
  · have hcases : status = 0 ∨ status = 1 := by omega
    rcases hcases with rfl | rfl
    · simp
    · simp

end Dispatch

/-! ## Commands and lines -/

variable {setup : Setup}

theorem onlyRefused_dispatch (words : List String) (p : Shell) :
    OnlyRefused (dispatch setup words) p := by
  have hnote : DoesAt Shell.machine [.dispatched words]
      (ShellM.onMachine (Effect.note (.dispatched words))) p :=
    ShellM.doesAt_onMachine (ends_of_ok rfl (Machine.Step.dispatched p.machine words).reaches)
  unfold dispatch
  refine (onlyRefused_note _ p).bind_does hnote fun _ q _ => ?_
  cases words with
  | nil => exact onlyRefused_pure _
  | cons first rest =>
    dsimp only
    by_cases hexit : first = Dispatch.exitWord
    · rw [if_pos hexit]
      exact onlyRefused_pure _
    · rw [if_neg hexit]
      refine onlyRefused_get_bind ?_
      cases q.machine.currentDir with
      | error cause =>
        refine (onlyRefused_note _ q).bind_does (Dispatch.quiet_noted _ q) fun _ r _ => ?_
        exact (onlyRefused_writeLine _ r).bind_pure _
      | ok directory =>
        refine (Dispatch.onlyRefused_aliases directory q).bind_does
          (Dispatch.quiet_aliases directory q) fun table r _ => ?_
        cases table.expand (first :: rest) with
        | nil => exact onlyRefused_pure _
        | cons name arguments => exact Dispatch.onlyRefused_resolve directory name arguments r

theorem onlyRefused_runCommands (htable : QuietTable setup.builtins) (commands : List String)
    (p : Shell) : OnlyRefused (runCommands setup commands) p := by
  induction commands generalizing p with
  | nil => exact onlyRefused_pure _
  | cons command rest ih =>
    refine (onlyRefused_dispatch _ p).bind_does (does_dispatch htable _ p) fun outcome q _ => ?_
    split
    · exact onlyRefused_pure _
    · exact (ih q).bind_pure _

/-- **Only the screen can stop a line.** -/
theorem onlyRefused_runLine (htable : QuietTable setup.builtins) (line : String) (p : Shell) :
    OnlyRefused (runLine setup line) p := by
  have hcommands := ends_runCommands htable (commandsOf line) p
  unfold runLine
  refine (onlyRefused_runCommands htable _ p).bind fun outcomes q hq => ⟨?_, ?_⟩
  · obtain ⟨count, hreach⟩ := hcommands.ok outcomes q hq
    exact ⟨_, hreach⟩
  · exact (onlyRefused_flush q).bind_pure _

/-- An action that only the screen can stop succeeds on a screen that never fails. -/
theorem OnlyRefused.exists_ok {α : Type} {x : ShellM α} {p : Shell} (h : OnlyRefused x p)
    (hscreen : p.machine.screen.NeverFails) : ∃ a q, x p = .ok a q := by
  cases hx : x p with
  | ok a q => exact ⟨a, q, rfl⟩
  | error cause q =>
    obtain ⟨deeds, m, hreach, hrefused⟩ := h cause q hx
    exact absurd hrefused (hreach.neverFails hscreen).not_refuses

/-- **No builtin is fatal.** On any screen, a command that comes to a builtin has an outcome, and
that is to leave the shell or a status of zero or one. Every other command that fails was refused
something by the screen, so on a screen that never fails each line has its outcomes. -/
theorem dispatch_absorbs {p : Shell} (hbuiltins : setup.builtins = Builtin.table) :
    (∀ directory words, p.machine.currentDir = .ok directory → ∀ (b : Builtin) arguments,
      (Dispatch.aliasesIn p.machine directory).spliced words = b.name :: arguments →
      ∃ outcome q, dispatch setup words p = .ok outcome q ∧
        outcome ∈ [Outcome.exit, .builtin 0, .builtin 1]) ∧
    (∀ words, OnlyRefused (dispatch setup words) p) ∧
    (∀ line, OnlyRefused (runLine setup line) p) ∧
    (p.machine.screen.NeverFails → ∀ line, ∃ outcomes q,
      runLine setup line p = .ok outcomes q) := by
  have htable : QuietTable setup.builtins := hbuiltins ▸ quietTable_builtins
  refine ⟨fun directory words hdirectory b arguments hwords => ?_, fun words => ?_, fun line => ?_,
    fun hscreen line => ?_⟩
  · exact Dispatch.dispatch_of_calls hbuiltins hdirectory hwords
  · exact onlyRefused_dispatch words p
  · exact onlyRefused_runLine htable line p
  · exact (onlyRefused_runLine htable line p).exists_ok hscreen

/-! ### A screen with little room -/

/-- A shell whose screen takes five bytes and cannot be flushed. -/
def crampedShell : Shell where
  machine := { Machine.boot .empty with screen := .blank (some 5) true }
  environment := ⟨.ofList [], bytesOf "/", false⟩

/-- The list of the builtins does not fit, and neither does what `help` says of that, but it has a
status. That nothing is found does not fit either, and this stops the command. -/
theorem dispatch_absorbs_cramped :
    (∃ q, dispatch Dispatch.obliging ["help"] crampedShell = .ok (.builtin 1) q) ∧
    ∃ cause q deeds m, dispatch Dispatch.obliging ["x*"] crampedShell = .error cause q ∧
      crampedShell.machine.Reaches deeds m ∧ m.Refuses cause q.machine := by
  obtain ⟨hbuiltin, hstopped, -, -⟩ :=
    @dispatch_absorbs Dispatch.obliging crampedShell rfl
  refine ⟨?_, ?_⟩
  · obtain ⟨outcome, q, hdispatch, -⟩ :=
      hbuiltin (bytesOf "/") ["help"] rfl .help [] (by decide)
    have houtcome : (dispatch Dispatch.obliging ["help"]).run' crampedShell
        = some (.builtin 1) := by
      decide +kernel
    have hsame := (eq_ok_of_run' houtcome).symm.trans hdispatch
    obtain ⟨rfl, -⟩ := EStateM.Result.ok.inj hsame
    exact ⟨q, hdispatch⟩
  · have hnone : (dispatch Dispatch.obliging ["x*"]).run' crampedShell = none := by
      decide +kernel
    obtain ⟨cause, q, hdispatch⟩ := exists_error_of_run' hnone
    obtain ⟨deeds, m, hreach, hrefused⟩ := hstopped ["x*"] cause q hdispatch
    exact ⟨cause, q, deeds, m, hdispatch, hreach, hrefused⟩

end LineShell
