import LineShell.Proofs.Shell.Deeds
/-!
What a command changes.

How a command is resolved is settled by the files and the environment that it finds, and by nothing
that is written in the meantime. So the environment and the directory that it leaves can be told
without running it (`Dispatch.changes`). They are the same on every screen, whether the command
succeeds or fails (`ends_dispatch`). Files change only if a program is started, and a program is
started only by a command that changes nothing else.
-/

set_option autoImplicit false

namespace LineShell

/-! ## From one shell to another -/

/-- The programs that were to be started, latest first. -/
def Machine.launches (m : Machine) : List Launch :=
  m.journal.filterMap fun
    | .launched launch => some launch
    | _ => none

/-- The environment of a shell, and the directory that its machine is in. -/
def Shell.standing (shell : Shell) : Environment × WorkDir :=
  (shell.environment, shell.machine.workDir)

/-- **A shell comes to another standing.** No program is started; the files and the keys stay. -/
structure Becomes (p : Shell) (there : Environment × WorkDir) (q : Shell) : Prop where
  environment : q.environment = there.1
  workDir : q.machine.workDir = there.2
  files : q.machine.files = p.machine.files
  keys : q.machine.keys = p.machine.keys
  launches : q.machine.launches = p.machine.launches

/-- What two shells have in common if something was written in between, and nothing else done. -/
def Calm (p q : Shell) : Prop := Becomes p p.standing q

/-- A program was to be started, with the variables and in the directory of the shell. All that can
have changed is the files, and the program left those that there are then. -/
structure Starts (host : Host) (p q : Shell) : Prop where
  environment : q.environment = p.environment
  workDir : q.machine.workDir = p.machine.workDir
  launched : ∃ launch, q.machine.launches = launch :: p.machine.launches ∧
    launch.vars = p.environment.vars ∧ launch.directory = p.environment.currentDir ∧
    (q.machine.files = p.machine.files ∨ ∃ report,
      host.run p.machine.surroundings launch = some report ∧ q.machine.files = report.files)

/-- **All that can become of a shell:** it comes to a standing, or, if a program is sought, it keeps
its own and a program was to be started. -/
def Follows (host : Host) (sought : Prop) (p : Shell) (there : Environment × WorkDir) (q : Shell) :
    Prop :=
  Becomes p there q ∨ sought ∧ there = p.standing ∧ Starts host p q

section Relations

variable {host : Host} {p q r : Shell} {there : Environment × WorkDir}

theorem Calm.standing (h : Calm p q) : q.standing = p.standing :=
  Prod.ext h.environment h.workDir

theorem Becomes.of_calm (h : Calm p q) (h' : Becomes q there r) : Becomes p there r :=
  ⟨h'.environment, h'.workDir, h'.files.trans h.files, h'.keys.trans h.keys,
    h'.launches.trans h.launches⟩

theorem Becomes.calm (h : Becomes p there q) (h' : Calm q r) : Becomes p there r :=
  ⟨h'.environment.trans h.environment, h'.workDir.trans h.workDir, h'.files.trans h.files,
    h'.keys.trans h.keys, h'.launches.trans h.launches⟩

instance : IsPreorder Shell Calm where
  refl _ := ⟨rfl, rfl, rfl, rfl, rfl⟩
  trans _ _ _ h h' := Becomes.calm h h'

theorem Calm.surroundings (h : Calm p q) : q.machine.surroundings = p.machine.surroundings := by
  have hworkDir : q.machine.workDir = p.machine.workDir := h.workDir
  unfold Machine.surroundings Machine.base
  rw [h.files, hworkDir, h.keys]

theorem Calm.base (h : Calm p q) : q.machine.base = p.machine.base :=
  congrArg Surroundings.base h.surroundings

theorem Starts.of_calm (h : Calm p q) (h' : Starts host q r) : Starts host p r := by
  obtain ⟨launch, hlaunches, hvars, hdirectory, hfiles⟩ := h'.launched
  have henvironment : q.environment = p.environment := h.environment
  refine ⟨h'.environment.trans h.environment, h'.workDir.trans h.workDir, launch, ?_, ?_, ?_, ?_⟩
  · rw [hlaunches, h.launches]
  · rw [hvars, henvironment]
  · rw [hdirectory, henvironment]
  · rwa [h.files, h.surroundings] at hfiles

theorem Starts.calm (h : Starts host p q) (h' : Calm q r) : Starts host p r := by
  obtain ⟨launch, hlaunches, hvars, hdirectory, hfiles⟩ := h.launched
  refine ⟨h'.environment.trans h.environment, h'.workDir.trans h.workDir, launch, ?_, hvars,
    hdirectory, ?_⟩
  · rw [h'.launches, hlaunches]
  · rwa [h'.files]

theorem Follows.of_calm {sought sought' : Prop} (h : Calm p q) (h' : Follows host sought q there r)
    (hmono : sought → sought') : Follows host sought' p there r := by
  rcases h' with hbecomes | ⟨hsought, hthere, hstarts⟩
  · exact .inl (.of_calm h hbecomes)
  · exact .inr ⟨hmono hsought, hthere.trans h.standing, .of_calm h hstarts⟩

end Relations

/-! ## Effects -/

/-- What an effect leaves alone that at most writes. -/
structure Machine.Calm (m n : Machine) : Prop where
  files : n.files = m.files
  workDir : n.workDir = m.workDir
  keys : n.keys = m.keys
  launches : n.launches = m.launches

namespace Effect

theorem calm_writeBytes (bytes : Bytes) : Keeps Machine.Calm (writeBytes bytes) := by
  intro m
  unfold writeBytes
  refine ends_get_bind.2 (ends_modify_bind.2 (ends_modify_bind.2 ?_))
  split
  · exact ends_of_error rfl ⟨rfl, rfl, rfl, rfl⟩
  · exact ends_of_ok rfl ⟨rfl, rfl, rfl, rfl⟩

theorem calm_flush : Keeps Machine.Calm flush := by
  intro m
  refine (ends_flush m).mono ?_ ?_
  · rintro _ _ rfl
    exact ⟨rfl, rfl, rfl, rfl⟩
  · rintro _ rfl
    exact ⟨rfl, rfl, rfl, rfl⟩

theorem calm_note_noticed (notice : Notice) : Keeps Machine.Calm (note (.noticed notice)) :=
  fun _ => ends_of_ok rfl ⟨rfl, rfl, rfl, rfl⟩

end Effect

namespace ShellM

theorem calm_onMachine {α : Type} {effect : Effect α} (h : Keeps Machine.Calm effect) :
    Keeps Calm (onMachine effect) := by
  intro p
  have hends := h p.machine
  have hcalm {m : Machine} (hm : p.machine.Calm m) : Calm p { p with machine := m } :=
    ⟨rfl, hm.workDir, hm.files, hm.keys, hm.launches⟩
  cases heffect : effect p.machine with
  | ok a m =>
    have heq : onMachine effect p = .ok a { p with machine := m } := by
      rw [onMachine, heffect]
    exact ends_of_ok heq (hcalm (hends.ok a m heffect))
  | error cause m =>
    have heq : onMachine effect p = .error cause { p with machine := m } := by
      rw [onMachine, heffect]
    exact ends_of_error heq (hcalm (hends.error cause m heffect))

theorem calm_write (text : String) : Keeps Calm (write text) :=
  calm_onMachine (Effect.calm_writeBytes _)

theorem calm_writeLine (text : String) : Keeps Calm (writeLine text) :=
  calm_onMachine (Effect.calm_writeBytes _)

theorem calm_noticed (notice : Notice) : Keeps Calm (onMachine (Effect.note (.noticed notice))) :=
  calm_onMachine (Effect.calm_note_noticed notice)

end ShellM

/-! ## Builtins -/

namespace Builtin

/-- The request that arguments make, if they fit and do not ask for help. -/
def request? (b : Builtin) (arguments : List String) : Option Request :=
  match b.grammar.read arguments with
  | .ok read => if read.help then none else some (b.request read)
  | .error _ => none

/-- **What a request changes.** A request that fails changes nothing. -/
def Request.changes (request : Request) (shell : Shell) : Environment × WorkDir :=
  match request with
  | .changeDir target =>
    match Builtin.changeDir target shell with
    | .ok moved => moved.standing
    | .error _ => shell.standing
  | .unsetVariables names => (names.foldl .unset shell.environment, shell.machine.workDir)
  | .leave => ({ shell.environment with shouldExit := true }, shell.machine.workDir)
  | _ => shell.standing

/-- What a builtin changes: nothing if its arguments make no request. -/
def changes (b : Builtin) (arguments : List String) (shell : Shell) : Environment × WorkDir :=
  match b.request? arguments with
  | some request => request.changes shell
  | none => shell.standing

/-- **Where a successful `cd` leads:** to a canonical path, of which two variables tell. -/
theorem exists_of_changeDir {target : Option String} {shell moved : Shell}
    (h : changeDir target shell = .ok moved) : ∃ requested resolved dir,
      destination shell.environment target = .ok requested ∧
      shell.machine.files.canonical shell.machine.base requested = .ok resolved ∧
      shell.machine.files.workDirOf shell.machine.base resolved = .ok dir ∧
      moved.machine = { shell.machine with workDir := dir } ∧
      moved.environment = ({ shell.environment with currentDir := resolved }.set "OLDPWD"
        (stringOf shell.environment.currentDir)).set "PWD" (stringOf resolved) := by
  rw [changeDir_eq] at h
  obtain ⟨move, hmove, rfl⟩ : ∃ move,
      moveOf target shell.environment shell.machine.files shell.machine.base = .ok move ∧
        moved = ⟨{ shell.machine with workDir := move.1 }, move.2⟩ := by
    cases hmove : moveOf target shell.environment shell.machine.files shell.machine.base with
    | error failure =>
      rw [hmove] at h
      cases h
    | ok move =>
      rw [hmove] at h
      cases h
      exact ⟨move, rfl, rfl⟩
  obtain ⟨requested, hrequested, hmove⟩ := except_bind_eq_ok.1 hmove
  obtain ⟨resolved, hresolved, hmove⟩ := except_bind_eq_ok.1 hmove
  split at hmove
  · cases hmove
  · obtain ⟨dir, hdir, hmove⟩ := except_bind_eq_ok.1 hmove
    cases hmove
    refine ⟨requested, resolved, dir, hrequested, ?_, ?_, rfl, rfl⟩
    · cases hcanonical : shell.machine.files.canonical shell.machine.base requested with
      | error cause =>
        rw [hcanonical] at hresolved
        cases hresolved
      | ok path =>
        rw [hcanonical] at hresolved
        cases hresolved
        rfl
    · cases hworkDir : shell.machine.files.workDirOf shell.machine.base resolved with
      | error cause =>
        rw [hworkDir] at hdir
        cases hdir
      | ok found =>
        rw [hworkDir] at hdir
        cases hdir
        rfl

variable {p q : Shell}

theorem calm_printing {x : ShellM Unit} (hx : Keeps Calm x) : Keeps Calm (printing x) :=
  fun shell => (hx shell).adaptExcept

/-- **A request changes what it has to,** even if the output fails. -/
theorem ends_perform (request : Request) (p : Shell) :
    Ends (perform request) p (fun _ q => Becomes p (request.changes p) q)
      (Becomes p (request.changes p)) := by
  have hline (text : String) : Keeps Calm (printing (ShellM.writeLine text)) :=
    calm_printing (ShellM.calm_writeLine text)
  cases request with
  | changeDir target =>
    unfold perform
    refine ends_get_bind.2 ?_
    rw [Request.changes]
    cases hmove : changeDir target p with
    | error failure => exact ends_of_error rfl (refl_of Calm p)
    | ok moved =>
      obtain ⟨_, _, _, -, -, -, hmachine, -⟩ := exists_of_changeDir hmove
      refine ends_of_ok rfl ⟨rfl, rfl, ?_, ?_, ?_⟩
      all_goals rw [hmachine]
      rfl
  | printDir => exact (Keeps.get_bind fun _ => (hline _).bind fun _ => Keeps.pure 0) p
  | print words newline =>
    exact ((calm_printing (ShellM.calm_write _)).bind fun _ => Keeps.pure 0) p
  | printVariables =>
    exact (Keeps.get_bind fun _ => (Keeps.forM (fun _ => hline _) _).bind fun _ => Keeps.pure 0) p
  | unsetVariables names => exact ends_of_ok rfl ⟨rfl, rfl, rfl, rfl, rfl⟩
  | listBuiltins =>
    refine ((hline _).bind fun _ => ?_ : Keeps Calm (perform .listBuiltins)) p
    exact (Keeps.forM (fun _ => hline _) _).bind fun _ => (hline _).bind fun _ => Keeps.pure 0
  | leave => exact ends_of_ok rfl ⟨rfl, rfl, rfl, rfl, rfl⟩

theorem calm_tell (text : String) (status : Nat) : Keeps Calm (tell text status) :=
  (ShellM.calm_writeLine _).bind fun _ => Keeps.pure status

theorem ends_run (request : Request) (p : Shell) :
    Ends (run request) p (fun _ q => Becomes p (request.changes p) q)
      (Becomes p (request.changes p)) := by
  refine ends_run_of_perform (ends_perform request p) fun failure q hbecomes => ?_
  have hreport : Keeps Calm (do ShellM.writeLine failure.message; return 1 : Command) :=
    (ShellM.calm_writeLine _).bind fun _ => Keeps.pure 1
  exact (hreport q).mono (fun _ _ h => hbecomes.calm h) fun _ h => hbecomes.calm h

theorem ends_command (b : Builtin) (arguments : List String) (p : Shell) :
    Ends (b.command arguments) p (fun _ q => Becomes p (b.changes arguments p) q)
      (Becomes p (b.changes arguments p)) := by
  unfold command changes request?
  cases b.grammar.read arguments with
  | error refusal => exact calm_tell _ _ p
  | ok read =>
    dsimp only
    split
    · exact calm_tell _ _ p
    · exact ends_run _ p

/-! ### The table -/

def named? (name : String) : Option Builtin := all.find? (·.name = name)

theorem named?_eq_some {name : String} {b : Builtin} : named? name = some b ↔ b.name = name := by
  constructor
  · intro h
    simpa using List.find?_some h
  · rintro rfl
    cases b <;> decide

theorem findSome?_table (env : Environment) (name : String) (arguments : List String) :
    table.findSome? (·.command? env name arguments)
      = (named? name).map (·.command arguments) := by
  unfold table named?
  induction all with
  | nil => rfl
  | cons b rest ih =>
    rw [List.map_cons, List.findSome?_cons, List.find?_cons, ih]
    by_cases hname : b.name = name
    · simp [entry, hname]
    · simp [entry, hname, Ne.symm hname]

end Builtin

/-! ## Resolving a command -/

/-- Whether a command ended in another way than by leaving the shell or with a builtin's status. -/
def Outcome.Plain : Outcome → Prop
  | .exit => False
  | .builtin _ => False
  | _ => True

namespace Dispatch

/-- The aliases that a file in a directory gives; a file that cannot be read gives none. -/
def aliasesIn (m : Machine) (directory : Path) : AliasTable :=
  match m.files.readText m.base (directory.join Alias.filePath) with
  | .ok contents => .parse contents
  | .error _ => .empty

/-- **The words of a command with its aliases expanded.** A command is settled before if it is the
word `exit` or if the directory cannot be read. -/
def expanded? (shell : Shell) (words : List String) : Option (List String) :=
  if words.head? = some exitWord then none
  else match shell.machine.currentDir with
    | .error _ => none
    | .ok directory => some ((aliasesIn shell.machine directory).expand words)

/-- The builtin that words call, with its arguments. -/
def call? : List String → Option (Builtin × List String)
  | [] => none
  | name :: arguments => (Builtin.named? name).map fun b => (b, arguments)

/-- What expanded words change. -/
def changesOf (shell : Shell) (words : List String) : Environment × WorkDir :=
  match words.head?.bind shell.environment.assign?, call? words with
  | some env, _ => (env, shell.machine.workDir)
  | none, some (b, arguments) => b.changes arguments shell
  | none, none => shell.standing

/-- The builtin that a command comes to, with its arguments. -/
def called? (shell : Shell) (words : List String) : Option (Builtin × List String) :=
  (expanded? shell words).bind call?

/-- **What a command changes.** -/
def changes (shell : Shell) (words : List String) : Environment × WorkDir :=
  match expanded? shell words with
  | some expanded => changesOf shell expanded
  | none => shell.standing

/-- The command comes to words that call no builtin. -/
def CallsNone (shell : Shell) (words : List String) : Prop :=
  ∃ expanded, expanded? shell words = some expanded ∧ call? expanded = none

/-- The outcomes of a command that comes to a builtin, or to none. -/
inductive Fits (called : Option (Builtin × List String)) (q : Shell) : Outcome → Prop where
  | builtin (call : Builtin × List String) (hcalled : called = some call) (status : Nat) :
      Fits called q (if q.environment.shouldExit then .exit else .builtin status)
  | other (outcome : Outcome) (hcalled : called = none) (hplain : outcome.Plain) :
      Fits called q outcome

variable {setup : Setup} {p : Shell}

theorem ends_notFound (name : String) (p : Shell) :
    Ends (notFound name) p (fun outcome q => outcome.Plain ∧ Calm p q) (Calm p) := by
  refine (ShellM.calm_writeLine _ p).bind fun _ q hq => ends_pure ⟨trivial, hq⟩

theorem ends_noticed (notice : Notice) (p : Shell) :
    Ends (ShellM.onMachine (Effect.note (.noticed notice))) p (fun _ q => Calm p q)
      fun _ => False :=
  ends_of_ok rfl ⟨rfl, rfl, rfl, rfl, rfl⟩

/-- Reading the aliases never fails, and at most gives notices. -/
theorem ends_aliases (directory : Path) (p : Shell) :
    Ends (aliases directory) p (fun table q => table = aliasesIn p.machine directory ∧ Calm p q)
      fun _ => False := by
  have hnotices (lines : List Nat) (p : Shell) : Ends (lines.forM fun _ =>
      ShellM.onMachine (Effect.note (.noticed .malformedAlias))) p (fun _ q => Calm p q)
        fun _ => False := by
    induction lines generalizing p with
    | nil => exact ends_pure (refl_of Calm p)
    | cons _ lines ih =>
      refine (ends_noticed _ p).bind fun _ q hq => ?_
      exact (ih q).mono (fun _ r hr => trans_of Calm hq hr) fun _ h => h
  refine ends_get_bind.2 ?_
  unfold aliasesIn
  dsimp only
  cases p.machine.files.readText p.machine.base (directory.join Alias.filePath) with
  | ok contents => exact (hnotices _ p).bind fun _ q hq => ends_pure ⟨rfl, hq⟩
  | error cause =>
    cases cause with
    | missing => exact ends_pure ⟨rfl, refl_of Calm p⟩
    | _ => exact (ends_noticed _ p).bind fun _ q hq => ends_pure ⟨rfl, hq⟩

theorem ends_assign (word : String) (p : Shell) :
    Ends (assign word) p (fun outcome q => outcome.Plain ∧
      Becomes p ((p.environment.assign? word).getD p.environment, p.machine.workDir) q)
      (Becomes p ((p.environment.assign? word).getD p.environment, p.machine.workDir)) := by
  refine ends_get_bind.2 ?_
  cases p.environment.assign? word with
  | some env => exact ends_of_ok rfl ⟨trivial, rfl, rfl, rfl, rfl, rfl⟩
  | none => exact (ShellM.calm_writeLine _ p).bind fun _ q hq => ends_pure ⟨trivial, hq⟩

/-- A command of the shell that fails for good has changed what it changes. -/
theorem ends_runBuiltin {command : Command} {there : Environment × WorkDir}
    (h : Ends command p (fun _ q => Becomes p there q) (Becomes p there)) :
    Ends (runBuiltin command) p (fun outcome q =>
      (∃ status, outcome = if q.environment.shouldExit then .exit else .builtin status) ∧
        Becomes p there q) (Becomes p there) := by
  refine (h.tryCatch fun _ q hq => ?_).bind fun status q hq => ends_get_bind.2 ?_
  · exact (ends_noticed _ q).bind_mono (fun _ h => h.elim) fun _ r hr => ends_pure (hq.calm hr)
  · exact ends_pure ⟨⟨status, rfl⟩, hq⟩

theorem ends_expandWildcard (name : String) (arguments : List String) (directory : Path)
    (p : Shell) : Ends (expandWildcard setup name arguments directory) p
      (fun outcome q => outcome.Plain ∧ Calm p q) (Calm p) := by
  unfold expandWildcard
  dsimp only
  split
  · have hprint (pattern : String) :
        Keeps Calm (ShellM.onMachine (Wildcard.print pattern directory)) :=
      ShellM.calm_onMachine (Keeps.get_bind fun _ => Effect.calm_writeBytes _)
    exact (hprint _ p).bind fun _ q hq => ends_pure ⟨trivial, hq⟩
  · exact ends_notFound name p

theorem ends_launch {host : Host} {launch : Launch} (hvars : launch.vars = p.environment.vars)
    (hdirectory : launch.directory = p.environment.currentDir) :
    Ends (ShellM.onMachine (Effect.launch host launch)) p (fun _ q => Starts host p q)
      (Starts host p) := by
  have heq := Effect.launch_eq host launch p.machine
  cases hrun : host.run p.machine.surroundings launch with
  | none =>
    rw [hrun] at heq
    have hlaunch : ShellM.onMachine (Effect.launch host launch) p
        = .ok none { p with machine := p.machine.record (.launched launch) } := by
      rw [ShellM.onMachine, heq]
    exact ends_of_ok hlaunch ⟨rfl, rfl, launch, rfl, hvars, hdirectory, .inl rfl⟩
  | some report =>
    rw [hrun] at heq
    have hlaunch : ShellM.onMachine (Effect.launch host launch) p
        = .ok (some report.status) { p with machine := p.machine.ran launch report } := by
      rw [ShellM.onMachine, heq]
    exact ends_of_ok hlaunch
      ⟨rfl, rfl, launch, rfl, hvars, hdirectory, .inr ⟨report, hrun, rfl⟩⟩

/-- **A program is given the variables and the directory** of the shell. -/
theorem ends_runProgram (name : String) (arguments : List String) (p : Shell) :
    Ends (runProgram setup name arguments) p
      (fun outcome q => outcome.Plain ∧ Follows setup.host True p p.standing q)
      (Follows setup.host True p p.standing) := by
  have hflush : Keeps Calm (ShellM.onMachine Effect.flush) :=
    ShellM.calm_onMachine Effect.calm_flush
  unfold runProgram
  refine (hflush p).bind_mono (fun _ hq => .inl hq) fun _ q hq => ends_get_bind.2 ?_
  obtain ⟨machine, environment⟩ := q
  dsimp only
  split
  · refine (ends_notFound name _).mono (fun _ r hr => ⟨hr.1, ?_⟩) fun r hr => ?_
    · exact .inl (trans_of Calm hq hr.2)
    · exact .inl (trans_of Calm hq hr)
  · refine (ends_launch rfl rfl).bind_mono (fun r hr => ?_) fun status r hr => ?_
    · exact .inr ⟨trivial, rfl, .of_calm hq hr⟩
    · cases status with
      | none =>
        refine (ends_notFound name r).mono (fun _ u hu => ⟨hu.1, ?_⟩) fun u hu => ?_
        · exact .inr ⟨trivial, rfl, .of_calm hq (hr.calm hu.2)⟩
        · exact .inr ⟨trivial, rfl, .of_calm hq (hr.calm hu)⟩
      | some status =>
        exact ends_pure ⟨trivial, .inr ⟨trivial, rfl, .of_calm hq hr⟩⟩

/-! ### The whole resolution -/

theorem not_assign_of_named {name : String} {b : Builtin} (h : Builtin.named? name = some b) :
    name.toList.contains '=' = false := by
  rw [Builtin.named?_eq_some] at h
  subst h
  cases b <;> decide +kernel

theorem assign?_eq_none {name : String} (env : Environment)
    (h : name.toList.contains '=' = false) : env.assign? name = none := by
  have hcut : Text.cutAt? '=' name.toList = none := by
    rw [Option.eq_none_iff_forall_ne_some]
    rintro ⟨before, behind⟩ hcut
    rw [(Text.cutAt?_eq_some_iff.1 hcut).1] at h
    simp at h
  rw [Environment.assign?, Environment.assignment?, hcut]
  rfl

theorem ends_resolve (hbuiltins : setup.builtins = Builtin.table) (directory : Path) (name : String)
    (arguments : List String) (p : Shell) :
    Ends (resolve setup directory name arguments) p
      (fun outcome q => Fits (call? (name :: arguments)) q outcome ∧
        Follows setup.host (call? (name :: arguments) = none) p
          (changesOf p (name :: arguments)) q)
      (Follows setup.host (call? (name :: arguments) = none) p
        (changesOf p (name :: arguments))) := by
  unfold resolve changesOf call?
  refine ends_get_bind.2 ?_
  obtain ⟨machine, environment⟩ := p
  dsimp only [List.head?_cons, Option.bind_some]
  rw [hbuiltins, Builtin.findSome?_table]
  by_cases hassign : name.toList.contains '='
  · have hnamed : Builtin.named? name = none := by
      rw [Option.eq_none_iff_forall_ne_some]
      intro b hb
      rw [not_assign_of_named hb] at hassign
      cases hassign
    rw [if_pos hassign, hnamed]
    have hends := ends_assign name ⟨machine, environment⟩
    cases hword : environment.assign? name with
    | some env =>
      simp only [hword, Option.getD_some] at hends
      exact hends.mono (fun outcome q hq => ⟨.other outcome rfl hq.1, .inl hq.2⟩)
        fun q hq => .inl hq
    | none =>
      simp only [hword, Option.getD_none] at hends
      exact hends.mono (fun outcome q hq => ⟨.other outcome rfl hq.1, .inl hq.2⟩)
        fun q hq => .inl hq
  · rw [if_neg hassign, assign?_eq_none environment (by simpa using hassign)]
    cases hnamed : Builtin.named? name with
    | some b =>
      refine (ends_runBuiltin (b.ends_command arguments _)).mono (fun outcome q hq => ?_)
        fun q hq => .inl hq
      obtain ⟨⟨status, rfl⟩, hbecomes⟩ := hq
      exact ⟨.builtin (b, arguments) rfl status, .inl hbecomes⟩
    | none =>
      dsimp only [Option.map_none]
      split
      · exact (ends_expandWildcard name arguments directory _).mono
          (fun outcome q hq => ⟨.other outcome rfl hq.1, .inl hq.2⟩) fun q hq => .inl hq
      · exact (ends_runProgram name arguments _).mono
          (fun outcome q hq => ⟨.other outcome rfl hq.1,
            hq.2.of_calm (refl_of Calm _) fun _ => rfl⟩)
          fun q hq => hq.of_calm (refl_of Calm _) fun _ => rfl

/-! ### What is written does not matter -/

theorem requestChanges_of_calm {q : Shell} (h : Calm p q) (request : Builtin.Request) :
    request.changes q = request.changes p := by
  have hstanding := h.standing
  obtain ⟨henvironment, hworkDir⟩ := Prod.mk.inj hstanding
  cases request with
  | changeDir target =>
    have hbase : q.machine.base = p.machine.base := by
      rw [Machine.base, Machine.base, h.files, hworkDir]
    unfold Builtin.Request.changes
    dsimp only
    rw [Builtin.changeDir_eq, Builtin.changeDir_eq, henvironment, h.files, hbase, hstanding]
    cases Builtin.moveOf target p.environment p.machine.files p.machine.base with
    | error failure => rfl
    | ok there => rfl
  | unsetVariables names =>
    show (names.foldl Environment.unset q.environment, q.machine.workDir) = _
    rw [henvironment, hworkDir]
    rfl
  | leave =>
    show ({ q.environment with shouldExit := true }, q.machine.workDir) = _
    rw [henvironment, hworkDir]
    rfl
  | _ => exact hstanding

theorem changesOf_of_calm {q : Shell} (h : Calm p q) (words : List String) :
    changesOf q words = changesOf p words := by
  have hstanding := h.standing
  obtain ⟨henvironment, hworkDir⟩ := Prod.mk.inj hstanding
  unfold changesOf
  rw [henvironment, hworkDir, hstanding]
  split
  · rfl
  · next b arguments _ _ =>
    unfold Builtin.changes
    cases b.request? arguments with
    | some request => exact requestChanges_of_calm h request
    | none => exact hstanding
  · rfl

theorem expanded?_of_calm {q : Shell} (h : Calm p q) (words : List String) :
    expanded? q words = expanded? p words := by
  have hworkDir : q.machine.workDir = p.machine.workDir := h.workDir
  unfold expanded? aliasesIn Machine.currentDir Machine.base
  rw [h.files, hworkDir]

/-! ### One command -/

theorem ends_aborted (text : String) (p : Shell) :
    Ends (do
        ShellM.onMachine (Effect.note (.noticed .noWorkingDirectory))
        ShellM.writeLine text
        return Outcome.aborted : ShellM Outcome) p
      (fun outcome q => outcome.Plain ∧ Calm p q) (Calm p) := by
  refine (ShellM.calm_noticed _ p).bind fun _ q hq => ?_
  refine (ShellM.calm_writeLine _ q).bind_mono (fun r hr => trans_of Calm hq hr) fun _ r hr => ?_
  exact ends_pure ⟨trivial, trans_of Calm hq hr⟩

/-- A command whose aliases are expanded in the directory that it finds. -/
theorem ends_expanded (hbuiltins : setup.builtins = Builtin.table) (directory : Path)
    (words : List String) (p : Shell) :
    Ends (do
        match (← aliases directory).expand words with
        | [] => return Outcome.noOp
        | name :: arguments => resolve setup directory name arguments : ShellM Outcome) p
      (fun outcome q => Fits (call? ((aliasesIn p.machine directory).expand words)) q outcome ∧
        Follows setup.host (call? ((aliasesIn p.machine directory).expand words) = none) p
          (changesOf p ((aliasesIn p.machine directory).expand words)) q)
      (Follows setup.host (call? ((aliasesIn p.machine directory).expand words) = none) p
        (changesOf p ((aliasesIn p.machine directory).expand words))) := by
  refine (ends_aliases directory p).bind_mono (fun _ h => h.elim) fun table q hq => ?_
  obtain ⟨rfl, hq⟩ := hq
  rw [← changesOf_of_calm hq]
  cases (aliasesIn p.machine directory).expand words with
  | nil =>
    have hnone : changesOf q [] = p.standing := hq.standing
    rw [hnone]
    exact ends_pure ⟨.other _ rfl trivial, .inl hq⟩
  | cons name arguments =>
    exact (ends_resolve hbuiltins directory name arguments q).mono
      (fun _ r hr => ⟨hr.1, hr.2.of_calm hq id⟩) fun r hr => hr.of_calm hq id

/-- Taking up a command is nothing but an entry in the journal. -/
theorem calm_dispatched (words : List String) (p : Shell) :
    Calm p { p with machine := p.machine.record (.dispatched words) } :=
  ⟨rfl, rfl, rfl, rfl, rfl⟩

end Dispatch

open Dispatch in
/-- **One command.** It changes what it has to, on every screen, and its outcome fits. -/
theorem ends_dispatch {setup : Setup} (hbuiltins : setup.builtins = Builtin.table)
    (words : List String) (p : Shell) :
    Ends (dispatch setup words) p
      (fun outcome q => Follows setup.host (CallsNone p words) p (changes p words) q ∧
        if words.head? = some exitWord then outcome = .exit
        else Fits (called? p words) q outcome)
      (Follows setup.host (CallsNone p words) p (changes p words)) := by
  have hnoted := onMachine_note (.dispatched words) p
  have hcalm := calm_dispatched words p
  generalize ({ p with machine := p.machine.record (.dispatched words) } : Shell) = q at *
  refine ends_bind_of_ok hnoted ?_
  unfold changes called? CallsNone
  rw [← expanded?_of_calm hcalm, expanded?]
  cases words with
  | nil =>
    have hhead : ¬ ([] : List String).head? = some exitWord := by simp
    simp only [if_neg hhead]
    cases q.machine.currentDir with
    | error cause => exact ends_pure ⟨.inl hcalm, .other _ rfl trivial⟩
    | ok directory => exact ends_pure ⟨.inl hcalm, .other _ rfl trivial⟩
  | cons first rest =>
    by_cases hexit : first = exitWord
    · have hhead : (first :: rest).head? = some exitWord := congrArg some hexit
      dsimp only
      rw [if_pos hexit, if_pos hhead]
      exact ends_pure ⟨.inl hcalm, by rw [if_pos hhead]⟩
    have hhead : ¬ (first :: rest).head? = some exitWord := by
      rintro ⟨⟩
      exact hexit rfl
    simp only [if_neg hexit, if_neg hhead]
    refine ends_get_bind.2 ?_
    cases q.machine.currentDir with
    | error cause =>
      refine (ends_aborted _ q).mono (fun outcome r hr => ⟨?_, .other outcome rfl hr.1⟩) ?_
      · exact .inl (trans_of Calm hcalm hr.2)
      · exact fun r hr => .inl (trans_of Calm hcalm hr)
    | ok directory =>
      dsimp only [Option.bind_some]
      rw [← changesOf_of_calm hcalm]
      refine (ends_expanded hbuiltins directory (first :: rest) q).mono (fun _ r hr => ?_) ?_
      · exact ⟨hr.2.of_calm hcalm fun h => ⟨_, rfl, h⟩, hr.1⟩
      · exact fun r hr => hr.of_calm hcalm fun h => ⟨_, rfl, h⟩

theorem follows_dispatch {setup : Setup} (hbuiltins : setup.builtins = Builtin.table)
    (words : List String) (p : Shell) : Follows setup.host (Dispatch.CallsNone p words) p
      (Dispatch.changes p words) (endOf (dispatch setup words p)) :=
  ((ends_dispatch hbuiltins words p).mono (fun _ _ h => h.1) fun _ h => h).endOf

theorem Follows.standing {host : Host} {sought : Prop} {p q : Shell}
    {there : Environment × WorkDir} (h : Follows host sought p there q) : q.standing = there := by
  rcases h with hbecomes | ⟨-, rfl, hstarts⟩
  · exact Prod.ext hbecomes.environment hbecomes.workDir
  · exact Prod.ext hstarts.environment hstarts.workDir

theorem Follows.unchanged {host : Host} {p q : Shell} {words : List String}
    (h : Follows host (Dispatch.CallsNone p words) p (Dispatch.changes p words) q)
    (hnone : Dispatch.expanded? p words = none) : Calm p q := by
  rcases h with hbecomes | ⟨⟨expanded, hsome, -⟩, -, -⟩
  · rwa [Dispatch.changes, hnone] at hbecomes
  · rw [hnone] at hsome
    cases hsome

end LineShell
