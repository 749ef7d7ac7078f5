import LineShell.Programs.Standard
import LineShell.Proofs.Session.Acting
import LineShell.Proofs.Shell.Changes
/-!
Only the commands that are meant to change a session change it.

Of all commands an assignment, `unset` and `cd` change variables, `cd` changes the directory, and
`exit` sets the wish to leave. Each of them changes what it says and nothing else, and every other
command leaves all of this alone (`Session.dispatch_frame`). This holds on every screen, also on one
that fails in the middle of a command.
-/

set_option autoImplicit false

namespace LineShell

/-! ## What the requests change -/

namespace Environment

theorem get?_set (env : Environment) (name value other : String) :
    (env.set name value).get? other = if other = name then some value else env.get? other :=
  Bindings.get?_insert env.vars name value other

theorem get?_unset_all (names : List String) (env : Environment) (other : String) :
    (names.foldl unset env).get? other = if other ∈ names then none else env.get? other := by
  induction names generalizing env with
  | nil => simp
  | cons name names ih =>
    have hunset : (env.unset name).get? other = if other = name then none else env.get? other :=
      Bindings.get?_erase env.vars name other
    rw [List.foldl_cons, ih, hunset]
    by_cases hother : other ∈ names
    · simp [hother]
    · by_cases hname : other = name
      · simp [hname]
      · simp [hother, hname]

theorem currentDir_unset_all (names : List String) (env : Environment) :
    (names.foldl unset env).currentDir = env.currentDir := by
  induction names generalizing env with
  | nil => rfl
  | cons name names ih => exact ih (env.unset name)

theorem shouldExit_unset_all (names : List String) (env : Environment) :
    (names.foldl unset env).shouldExit = env.shouldExit := by
  induction names generalizing env with
  | nil => rfl
  | cons name names ih => exact ih (env.unset name)

theorem assignment?_eq_some {word name value : String} :
    assignment? word = some (name, value) ↔ word = name ++ "=" ++ value ∧ '=' ∉ name.toList := by
  have hequals : (name ++ "=" ++ value).toList = name.toList ++ '=' :: value.toList := by
    rw [String.toList_append, String.toList_append, List.append_assoc]
    rfl
  unfold assignment?
  rw [Option.map_eq_some_iff]
  constructor
  · rintro ⟨⟨before, behind⟩, hcut, hword⟩
    obtain ⟨rfl, rfl⟩ := Prod.mk.inj hword
    obtain ⟨htext, hbefore⟩ := Text.cutAt?_eq_some_iff.1 hcut
    rw [String.toList_ofList]
    refine ⟨String.toList_inj.1 ?_, hbefore⟩
    rw [htext, hequals, String.toList_ofList, String.toList_ofList]
  · rintro ⟨rfl, hname⟩
    refine ⟨(name.toList, value.toList), Text.cutAt?_eq_some_iff.2 ⟨hequals, hname⟩, ?_⟩
    exact Prod.ext String.ofList_toList String.ofList_toList

/-- **An assignment** has a name that is not empty, an equals sign, and a value. -/
theorem assign?_eq_some {env changed : Environment} {word : String} :
    env.assign? word = some changed ↔ ∃ name value, word = name ++ "=" ++ value ∧ name ≠ "" ∧
      '=' ∉ name.toList ∧ changed = env.set name value := by
  unfold assign?
  constructor
  · intro h
    split at h
    · cases h
    · next name value hword =>
      obtain ⟨rfl, hequals⟩ := assignment?_eq_some.1 hword
      split at h
      · cases h
      · next hname =>
        cases h
        rw [String.isEmpty_iff] at hname
        exact ⟨name, value, rfl, hname, hequals, rfl⟩
  · rintro ⟨name, value, hword, hname, hequals, rfl⟩
    rw [assignment?_eq_some.2 ⟨hword, hequals⟩]
    exact if_neg (by rwa [String.isEmpty_iff])

end Environment

theorem Builtin.eq_exit_of_leave {b : Builtin} {arguments : List String}
    (h : b.request? arguments = some .leave) : b = .exit := by
  unfold request? at h
  split at h
  · split at h
    · cases h
    · cases b with
      | exit => rfl
      | _ => cases Option.some.inj h
  · cases h

/-! ## What a command comes to -/

namespace Dispatch

/-- The request that a command makes to a builtin, if it comes to one, and its arguments fit and do
not ask for help. -/
def asked? (shell : Shell) (words : List String) : Option Builtin.Request :=
  (called? shell words).bind fun call => call.1.request? call.2

/-- The command is an assignment once its aliases are expanded. -/
def Assigns (shell : Shell) (words : List String) (name value : String) : Prop :=
  name ≠ "" ∧ '=' ∉ name.toList ∧
    ∃ arguments, expanded? shell words = some ((name ++ "=" ++ value) :: arguments)

/-- The command is a `cd` that succeeds, and leads to `moved`. -/
def Moves (shell : Shell) (words : List String) (moved : Shell) : Prop :=
  ∃ target, asked? shell words = some (.changeDir target) ∧
    Builtin.changeDir target shell = .ok moved

variable {shell moved : Shell} {words : List String} {request : Builtin.Request}

theorem changes_of_assigns {name value : String} (h : Assigns shell words name value) :
    changes shell words = (shell.environment.set name value, shell.machine.workDir) := by
  obtain ⟨hname, hequals, arguments, hexpanded⟩ := h
  have hassign : shell.environment.assign? (name ++ "=" ++ value)
      = some (shell.environment.set name value) :=
    Environment.assign?_eq_some.2 ⟨name, value, rfl, hname, hequals, rfl⟩
  simp only [changes, hexpanded, changesOf, List.head?_cons, Option.bind_some, hassign]

theorem changes_of_asked (h : asked? shell words = some request) :
    changes shell words = request.changes shell := by
  obtain ⟨⟨b, arguments⟩, hcalled, hrequest⟩ := Option.bind_eq_some_iff.1 h
  obtain ⟨expanded, hexpanded, hcall⟩ := Option.bind_eq_some_iff.1 hcalled
  cases expanded with
  | nil => cases hcall
  | cons name rest =>
    obtain ⟨b', hnamed, hpair⟩ := Option.map_eq_some_iff.1 hcall
    cases hpair
    have hassign := assign?_eq_none shell.environment (not_assign_of_named hnamed)
    simp only [changes, hexpanded, changesOf, List.head?_cons, Option.bind_some, hassign, hcall,
      Builtin.changes]
    dsimp only at hrequest
    rw [hrequest]

/-- **Every other command changes nothing.** -/
theorem changes_cases (shell : Shell) (words : List String) :
    changes shell words = shell.standing ∨ (∃ name value, Assigns shell words name value) ∨
      ∃ request, asked? shell words = some request := by
  cases hexpanded : expanded? shell words with
  | none => exact .inl (by rw [changes, hexpanded])
  | some expanded =>
    cases hassign : expanded.head?.bind shell.environment.assign? with
    | some env =>
      obtain ⟨word, hhead, hword⟩ := Option.bind_eq_some_iff.1 hassign
      obtain ⟨name, value, rfl, hname, hequals, -⟩ := Environment.assign?_eq_some.1 hword
      obtain ⟨arguments, rfl⟩ := List.head?_eq_some_iff.1 hhead
      exact .inr (.inl ⟨name, value, hname, hequals, arguments, hexpanded⟩)
    | none =>
      cases hcall : call? expanded with
      | none => exact .inl (by simp only [changes, hexpanded, changesOf, hassign, hcall])
      | some call =>
        cases hrequest : call.1.request? call.2 with
        | none =>
          refine .inl ?_
          simp only [changes, hexpanded, changesOf, hassign, hcall, Builtin.changes, hrequest]
        | some request =>
          refine .inr (.inr ⟨request, ?_⟩)
          rw [asked?, called?, hexpanded, Option.bind_some, hcall, Option.bind_some, hrequest]

theorem changes_of_moves (h : Moves shell words moved) : changes shell words = moved.standing := by
  obtain ⟨target, hasked, hmoved⟩ := h
  rw [changes_of_asked hasked, Builtin.Request.changes, hmoved]

end Dispatch

/-! ## What one command leaves alone -/

namespace Session

/-- **What a command may change in a session, and what it must:** only an assignment, `unset` and a
successful `cd` change variables, only a successful `cd` changes the directory, and only the builtin
`exit` sets the wish to leave. -/
structure Framed (words : List String) (before after : Session) : Prop where
  history : after.history = before.history
  /-- Without a directory that can be read nothing changes. -/
  unreadable : ∀ cause, before.shell.machine.currentDir = .error cause →
    after.shell.environment = before.shell.environment ∧
    after.shell.machine.workDir = before.shell.machine.workDir ∧
    after.shell.machine.files = before.shell.machine.files ∧
    after.shell.machine.launches = before.shell.machine.launches
  /-- An assignment sets its name. -/
  assigned : ∀ name value, Dispatch.Assigns before.shell words name value →
    ∀ other, after.shell.environment.get? other =
      if other = name then some value else before.shell.environment.get? other
  /-- An `unset` removes its names. -/
  removed : ∀ names, Dispatch.asked? before.shell words = some (.unsetVariables names) →
    ∀ other, after.shell.environment.get? other =
      if other ∈ names then none else before.shell.environment.get? other
  /-- A successful `cd` sets two variables. -/
  moved : ∀ moved, Dispatch.Moves before.shell words moved →
    after.shell.environment.currentDir = moved.environment.currentDir ∧
    after.shell.machine.workDir = moved.machine.workDir ∧
    ∀ other, after.shell.environment.get? other =
      if other = "PWD" then some (stringOf moved.environment.currentDir)
      else if other = "OLDPWD" then some (stringOf before.shell.environment.currentDir)
      else before.shell.environment.get? other
  /-- Nothing else changes variables. -/
  vars : after.shell.environment.vars ≠ before.shell.environment.vars →
    (∃ name value, Dispatch.Assigns before.shell words name value) ∨
    (∃ names, Dispatch.asked? before.shell words = some (.unsetVariables names)) ∨
    ∃ moved, Dispatch.Moves before.shell words moved
  /-- Nothing else changes the directory, neither the one nor the other. -/
  directory : after.shell.environment.currentDir ≠ before.shell.environment.currentDir ∨
      after.shell.machine.workDir ≠ before.shell.machine.workDir →
    ∃ moved, Dispatch.Moves before.shell words moved
  /-- The builtin `exit` sets the wish to leave, and nothing takes it back. -/
  shouldExit : after.shell.environment.shouldExit = true ↔
    before.shell.environment.shouldExit = true ∨
      Dispatch.asked? before.shell words = some .leave
  /-- That builtin is reached through an alias only. -/
  aliased : Dispatch.asked? before.shell words = some .leave →
    Dispatch.expanded? before.shell words ≠ some words
  /-- At most one program is started, with the variables as they are. -/
  launched : after.shell.machine.launches = before.shell.machine.launches ∨
    ∃ launch, after.shell.machine.launches = launch :: before.shell.machine.launches ∧
      launch.vars = before.shell.environment.vars ∧
      launch.vars = after.shell.environment.vars

end Session

namespace Dispatch

variable {shell : Shell} {words : List String}

theorem vars_changes (h : (changes shell words).1.vars ≠ shell.environment.vars) :
    (∃ name value, Assigns shell words name value) ∨
    (∃ names, asked? shell words = some (.unsetVariables names)) ∨
    ∃ moved, Moves shell words moved := by
  rcases changes_cases shell words with hstanding | hassigns | ⟨request, hasked⟩
  · rw [hstanding] at h
    exact absurd rfl h
  · exact .inl hassigns
  · rw [changes_of_asked hasked] at h
    cases request with
    | unsetVariables names => exact .inr (.inl ⟨names, hasked⟩)
    | changeDir target =>
      cases hmove : Builtin.changeDir target shell with
      | ok moved => exact .inr (.inr ⟨moved, target, hasked, hmove⟩)
      | error failure =>
        rw [Builtin.Request.changes, hmove] at h
        exact absurd rfl h
    | _ => exact absurd rfl h

theorem directory_changes (h : (changes shell words).1.currentDir ≠ shell.environment.currentDir ∨
    (changes shell words).2 ≠ shell.machine.workDir) : ∃ moved, Moves shell words moved := by
  rcases changes_cases shell words with hstanding | ⟨name, value, hassigns⟩ | ⟨request, hasked⟩
  · rw [hstanding] at h
    simp [Shell.standing] at h
  · rw [changes_of_assigns hassigns] at h
    simp [Environment.set] at h
  · rw [changes_of_asked hasked] at h
    cases request with
    | changeDir target =>
      cases hmove : Builtin.changeDir target shell with
      | ok moved => exact ⟨moved, target, hasked, hmove⟩
      | error failure =>
        simp [Builtin.Request.changes, hmove, Shell.standing] at h
    | unsetVariables names =>
      simp [Builtin.Request.changes, Environment.currentDir_unset_all] at h
    | _ => simp [Builtin.Request.changes, Shell.standing] at h

theorem shouldExit_changes : (changes shell words).1.shouldExit = true ↔
    shell.environment.shouldExit = true ∨ asked? shell words = some .leave := by
  cases hasked : asked? shell words with
  | some request =>
    rw [changes_of_asked hasked]
    cases request with
    | leave => simp [Builtin.Request.changes]
    | changeDir target =>
      cases hmove : Builtin.changeDir target shell with
      | ok moved =>
        obtain ⟨_, _, _, -, -, -, -, henvironment⟩ := Builtin.exists_of_changeDir hmove
        simp [Builtin.Request.changes, hmove, Shell.standing, henvironment, Environment.set]
      | error failure => simp [Builtin.Request.changes, hmove, Shell.standing]
    | unsetVariables names =>
      simp [Builtin.Request.changes, Environment.shouldExit_unset_all]
    | _ => simp [Builtin.Request.changes, Shell.standing]
  | none =>
    rcases changes_cases shell words with hstanding | ⟨name, value, hassigns⟩ | ⟨request, hsome⟩
    · simp [hstanding, Shell.standing]
    · simp [changes_of_assigns hassigns, Environment.set]
    · rw [hasked] at hsome
      cases hsome

theorem get?_changes_of_assigns {name value : String} (h : Assigns shell words name value)
    (other : String) : (changes shell words).1.get? other =
      if other = name then some value else shell.environment.get? other := by
  rw [changes_of_assigns h]
  exact Environment.get?_set shell.environment name value other

theorem get?_changes_of_unset {names : List String}
    (h : asked? shell words = some (.unsetVariables names)) (other : String) :
    (changes shell words).1.get? other =
      if other ∈ names then none else shell.environment.get? other := by
  rw [changes_of_asked h]
  exact Environment.get?_unset_all names shell.environment other

theorem get?_changes_of_moves {moved : Shell} (h : Moves shell words moved) (other : String) :
    (changes shell words).1.get? other =
      if other = "PWD" then some (stringOf moved.environment.currentDir)
      else if other = "OLDPWD" then some (stringOf shell.environment.currentDir)
      else shell.environment.get? other := by
  obtain ⟨target, -, hmove⟩ := id h
  obtain ⟨_, resolved, _, -, -, -, -, htold⟩ := Builtin.exists_of_changeDir hmove
  have hdirectory : moved.environment.currentDir = resolved := by
    rw [htold]
    rfl
  rw [changes_of_moves h, Shell.standing, hdirectory, htold, Environment.get?_set,
    Environment.get?_set]
  rfl

/-- The word `exit` itself comes to no builtin. -/
theorem expanded?_ne_of_leave (h : asked? shell words = some .leave) :
    expanded? shell words ≠ some words := by
  intro hsame
  obtain ⟨⟨b, arguments⟩, hcalled, hrequest⟩ := Option.bind_eq_some_iff.1 h
  rw [called?, hsame, Option.bind_some] at hcalled
  cases words with
  | nil => cases hcalled
  | cons name rest =>
    obtain ⟨b', hnamed, hpair⟩ := Option.map_eq_some_iff.1 hcalled
    cases hpair
    have hexit : b = .exit := Builtin.eq_exit_of_leave hrequest
    rw [Builtin.named?_eq_some, hexit] at hnamed
    have hword : (name :: arguments).head? = some exitWord := congrArg some hnamed.symm
    rw [expanded?, if_pos hword] at hsame
    cases hsame

/-- Without a directory that can be read a command comes to nothing. -/
theorem expanded?_of_error {cause : Cause} (h : shell.machine.currentDir = .error cause) :
    expanded? shell words = none := by
  unfold expanded?
  rw [h]
  exact ite_self none

end Dispatch

namespace Session

/-- **Only the commands that are meant to change a session change it,** on every screen. -/
theorem dispatch_frame (settings : Settings) (host : Host) (session : Session)
    (words : List String) : Framed words session (endOf
      (SessionM.inShell (dispatch (setupOf settings host Builtin.table) words) session)) := by
  have hfollows := @follows_dispatch (setupOf settings host Builtin.table) rfl words session.shell
  rw [SessionM.endOf_inShell]
  generalize endOf (dispatch (setupOf settings host Builtin.table) words session.shell) = after
    at hfollows
  have henvironment : after.environment = _ := congrArg Prod.fst hfollows.standing
  have hworkDir : after.machine.workDir = _ := congrArg Prod.snd hfollows.standing
  refine
    { history := rfl
      unreadable := fun cause hcause => ?_
      assigned := fun name value hassigns other => ?_
      removed := fun names hasked other => ?_
      moved := fun moved hmoves => ⟨?_, ?_, fun other => ?_⟩
      vars := fun hvars => Dispatch.vars_changes (by rwa [← henvironment])
      directory := fun h => Dispatch.directory_changes (by rwa [← henvironment, ← hworkDir])
      shouldExit := ?_
      aliased := Dispatch.expanded?_ne_of_leave
      launched := ?_ }
  all_goals dsimp only
  · have hcalm := hfollows.unchanged (Dispatch.expanded?_of_error hcause)
    exact ⟨hcalm.environment, hcalm.workDir, hcalm.files, hcalm.launches⟩
  · rw [henvironment]
    exact Dispatch.get?_changes_of_assigns hassigns other
  · rw [henvironment]
    exact Dispatch.get?_changes_of_unset hasked other
  · rw [henvironment, Dispatch.changes_of_moves hmoves]
    rfl
  · rw [hworkDir, Dispatch.changes_of_moves hmoves]
    rfl
  · rw [henvironment]
    exact Dispatch.get?_changes_of_moves hmoves other
  · rw [henvironment]
    exact Dispatch.shouldExit_changes
  · rcases hfollows with hbecomes | ⟨-, -, hstarts⟩
    · exact .inl hbecomes.launches
    · obtain ⟨launch, hlaunches, hgiven, -⟩ := hstarts.launched
      refine .inr ⟨launch, hlaunches, hgiven, hgiven.trans ?_⟩
      exact congrArg Environment.vars hstarts.environment.symm

end Session

end LineShell
