import LineShell.Proofs.Line.Phrases
import LineShell.Proofs.Shell.Changes
import LineShell.Proofs.Text.Utf8
import Mathlib.Data.List.Induction
/-!
When a program is started, and with what.

A command goes one of six ways, and which one is told by its words, the table of builtins and the
files before anything is done. Only the last way leads to a program, and there the program has to be
found first. So the conditions can be listed (`Dispatch.Starting`): if they hold, one program is
started, with the expanded words, the variables and the directory of the shell; if not, the way to
start programs is never used, whatever it is (`dispatch_launches`).

The ways are taken one by one below, each from a shell with a screen that never fails, and each is
told by the result that it gives.
-/

set_option autoImplicit false

namespace LineShell

/-! ## Words behind an alias -/

/-- Only a blank command has no words. -/
theorem wordsOf_eq_nil_iff (command : String) :
    wordsOf command = [] ↔ Text.White command.toList := by
  have hpieces : wordsOf command = [] ↔ Text.words command.toList = [] := by
    unfold wordsOf Words.ofChars Words.scan
    rw [List.map_eq_nil_iff]
    induction Text.words command.toList using List.reverseRecOn with
    | nil => simp [Words.State.words]
    | append_singleton pieces piece _ =>
      -- A last piece leaves a word, whatever was there before it.
      rw [List.foldl_concat]
      generalize pieces.foldl Words.step (.outside []) = state
      cases state with
      | outside done =>
        unfold Words.step Words.opening
        dsimp only
        split
        · simp [Words.State.words]
        · split <;> simp [Words.State.words]
      | inside quote current done =>
        unfold Words.step Words.continuing
        dsimp only
        split <;> simp [Words.State.words]
  rw [hpieces]
  constructor
  · intro hnil
    have hflatten := Text.words_flatten command.toList
    rw [hnil, List.flatten_nil, eq_comm, List.filter_eq_nil_iff] at hflatten
    intro c hc
    simpa using hflatten c hc
  · intro hwhite
    simpa using Text.words_white_append hwhite []

namespace AliasTable

/-- **Words with the first one replaced** by the words of its alias, if it has one that is not
blank. -/
def spliced (table : AliasTable) : List String → List String
  | [] => []
  | name :: rest =>
    match table.get? name with
    | some value => if Text.White value.toList then name :: rest else wordsOf value ++ rest
    | none => name :: rest

theorem expand_eq_spliced (table : AliasTable) (words : List String) :
    table.expand words = table.spliced words := by
  cases words with
  | nil => rfl
  | cons name rest =>
    unfold expand spliced
    dsimp only
    cases table.get? name with
    | none => rfl
    | some value =>
      dsimp only
      split_ifs with hwhite
      · rw [(wordsOf_eq_nil_iff value).2 hwhite]
      · cases hvalue : wordsOf value with
        | nil => exact absurd ((wordsOf_eq_nil_iff value).1 hvalue) hwhite
        | cons first more => rfl

/-- A command keeps a name. -/
theorem exists_spliced_eq_cons (table : AliasTable) {words : List String} (h : words ≠ []) :
    ∃ name arguments, table.spliced words = name :: arguments := by
  apply List.exists_cons_of_ne_nil
  cases words with
  | nil => exact absurd rfl h
  | cons name rest =>
    unfold spliced
    dsimp only
    cases table.get? name with
    | none => exact List.cons_ne_nil name rest
    | some value =>
      dsimp only
      split_ifs with hwhite
      · exact List.cons_ne_nil name rest
      · simp [wordsOf_eq_nil_iff, hwhite]

end AliasTable

/-! ## Where a program is found -/

namespace Program

/-- **The program that a word names:** a regular file, at the path that the word is, or under that
name in the first directory of the search path that has one. -/
inductive Found (files : FileTree) (base : Option Place) (word search directory : Path) :
    Path → Prop where
  | written (hslash : Path.slash ∈ word) (hfile : files.isFile base (directory.join word) = true) :
      Found files base word search directory (directory.join word)
  | searched (before : List Path) (dir : Path) (after : List Path) (hword : word ≠ [])
      (hslash : Path.slash ∉ word)
      (hsearch : search.splitOn searchSeparator = before ++ dir :: after)
      (hdir : dir ≠ []) (hfile : files.isFile base ((directory.join dir).join word) = true)
      (hfirst : ∀ other ∈ before, other ≠ [] →
        files.isFile base ((directory.join other).join word) = false) :
      Found files base word search directory ((directory.join dir).join word)

theorem find?_eq_some_iff {files : FileTree} {base : Option Place}
    {word search directory program : Path} :
    find? files base word search directory = some program ↔
      Found files base word search directory program := by
  unfold find? candidates
  -- No word names nothing, and a word with a slash is looked for in one place only.
  by_cases hword : word = []
  · subst hword
    constructor
    · intro h
      cases h
    · rintro (⟨hslash, -⟩ | ⟨_, _, _, hword, -⟩)
      · cases hslash
      · exact absurd rfl hword
  rw [if_neg (by simpa using hword)]
  by_cases hslash : Path.slash ∈ word
  · rw [if_pos (by simpa using hslash), List.find?_singleton]
    constructor
    · intro h
      obtain ⟨hfile, hprogram⟩ := Option.ite_none_right_eq_some.1 h
      obtain rfl := Option.some.inj hprogram
      exact .written hslash hfile
    · rintro (⟨-, hfile⟩ | ⟨_, _, _, -, hnot, -⟩)
      · exact if_pos hfile
      · exact absurd hslash hnot
  rw [if_neg (by simpa using hslash), searchDirs, List.find?_map, List.find?_filter,
    Option.map_eq_some_iff]
  simp only [List.find?_eq_some_iff_append, Function.comp_apply, Bool.not_eq_true',
    List.isEmpty_eq_false_iff, decide_eq_true_eq, decide_eq_false_iff_not, not_and,
    Bool.not_eq_true]
  constructor
  · rintro ⟨dir, ⟨⟨hdir, hfile⟩, before, after, hsearch, hfirst⟩, rfl⟩
    exact .searched before dir after hword hslash hsearch hdir hfile hfirst
  · rintro (⟨hmem, -⟩ | ⟨before, dir, after, -, -, hsearch, hdir, hfile, hfirst⟩)
    · exact absurd hmem hslash
    · exact ⟨dir, ⟨⟨hdir, hfile⟩, before, after, hsearch, hfirst⟩, rfl⟩

end Program

/-! ## Ways that lead to no program -/

/-- A text about the arguments is all that is written. -/
theorem Builtin.tell_of_neverFails {p : Shell} (h : p.machine.screen.NeverFails) (text : String)
    (status : Nat) : tell text status p = .ok status { p with
      machine := p.machine.wrote (String.ofList (Text.trimEnd text.toList) ++ "\n") } := by
  unfold tell
  rw [bind_of_ok (writeLine_of_neverFails h _)]
  rfl

/-- A command that starts no program by itself, wherever it runs. -/
def StartsNone (command : Command) : Prop :=
  ∀ p : Shell, (endOf (command p)).machine.launches = p.machine.launches

/-- A table makes commands only that start no program by themselves. -/
def IdleTable (builtins : List BuiltinEntry) : Prop :=
  ∀ entry ∈ builtins, ∀ env name arguments command,
    entry.command? env name arguments = some command → StartsNone command

theorem Builtin.startsNone_command (b : Builtin) (arguments : List String) :
    StartsNone (b.command arguments) :=
  fun p => (b.ends_command arguments p).endOf.launches

theorem idleTable_builtins : IdleTable Builtin.table := by
  intro entry hentry env name arguments command hcommand
  obtain ⟨b, rfl⟩ := Builtin.exists_of_mem_table hentry hcommand
  exact b.startsNone_command arguments

namespace Dispatch

variable {setup : Setup} {p : Shell}

/-- **A way that leads to no program:** it has an end, and no program was to be started on it. That
may depend on what a builtin does by itself. -/
def Settles (idle : Prop) (way : ShellM Outcome) (p : Shell) : Prop :=
  ∃ outcome q, way p = .ok outcome q ∧ (idle → q.machine.launches = p.machine.launches)

theorem notFound_of_neverFails (h : p.machine.screen.NeverFails) (name : String) :
    notFound name p = .ok .notFound
      { p with machine := p.machine.wrote ("psh: No command found: " ++ name ++ "\n") } := by
  unfold notFound
  rw [bind_of_ok (writeLine_of_neverFails h _)]
  rfl

theorem settles_assign {idle : Prop} (h : p.machine.screen.NeverFails) (word : String) :
    Settles idle (assign word) p := by
  unfold Settles assign
  rw [get_bind]
  cases p.environment.assign? word with
  | some env => exact ⟨_, _, rfl, fun _ => rfl⟩
  | none =>
    dsimp only
    rw [bind_of_ok (writeLine_of_neverFails h _)]
    exact ⟨_, _, rfl, fun _ => rfl⟩

/-- The outcome of a command of the shell that has a status. -/
theorem runBuiltin_of_ok {command : Command} {status : Nat} {q : Shell}
    (h : command p = .ok status q) : runBuiltin command p
      = .ok (if q.environment.shouldExit then .exit else .builtin status) q := by
  have htry : EStateM.tryCatch command (fun _ => do
      ShellM.onMachine (Effect.note (.noticed .builtinFailed))
      return 1) p = .ok status q := by
    unfold EStateM.tryCatch
    rw [h]
  unfold runBuiltin
  exact bind_of_ok htry

/-- A command of the shell that fails has an outcome all the same. -/
theorem runBuiltin_of_error {command : Command} {cause : Cause} {q : Shell}
    (h : command p = .error cause q) : runBuiltin command p
      = .ok (if q.environment.shouldExit then .exit else .builtin 1)
          { q with machine := q.machine.record (.noticed .builtinFailed) } := by
  have htry : EStateM.tryCatch command (fun _ => do
      ShellM.onMachine (Effect.note (.noticed .builtinFailed))
      return 1) p = .ok 1 { q with machine := q.machine.record (.noticed .builtinFailed) } := by
    unfold EStateM.tryCatch
    rw [h]
    rfl
  unfold runBuiltin
  exact bind_of_ok htry

theorem settles_runBuiltin {idle : Prop} {command : Command} (h : idle → StartsNone command)
    (p : Shell) : Settles idle (runBuiltin command) p := by
  have hlaunches := fun hidle => h hidle p
  cases hcommand : command p with
  | ok status q =>
    rw [hcommand] at hlaunches
    exact ⟨_, q, runBuiltin_of_ok hcommand, hlaunches⟩
  | error cause q =>
    rw [hcommand] at hlaunches
    exact ⟨_, _, runBuiltin_of_error hcommand, hlaunches⟩

theorem settles_expandWildcard {idle : Prop} (h : p.machine.screen.NeverFails) (name : String)
    (arguments : List String) (directory : Path) :
    Settles idle (expandWildcard setup name arguments directory) p := by
  unfold expandWildcard
  dsimp only
  split
  · next pattern _ _ =>
    unfold Settles
    have hprint : ShellM.onMachine (Wildcard.print pattern directory) p
        = .ok () { p with machine := p.machine.wrote (Wildcard.report pattern
            (Wildcard.expand p.machine.files p.machine.base pattern directory) ++ "\n") } := by
      unfold ShellM.onMachine Wildcard.print Effect.writeLine
      rw [get_bind, Effect.write_of_neverFails h]
    rw [bind_of_ok hprint]
    exact ⟨_, _, rfl, fun _ => rfl⟩
  · exact ⟨_, _, notFound_of_neverFails h name, fun _ => rfl⟩

/-! ## The way to a program -/

/-- The search path of an environment. -/
def searchPath (env : Environment) : Path := bytesOf ((env.get? "PATH").getD "")

/-- The program that a shell finds for a name. -/
def Finds (p : Shell) (name : String) (program : Path) : Prop :=
  Program.Found p.machine.files p.machine.base (bytesOf name) (searchPath p.environment)
    p.environment.currentDir program

/-- The program is looked for once the screen is flushed. -/
theorem runProgram_eq (h : p.machine.screen.NeverFails) (setup : Setup) (name : String)
    (arguments : List String) : runProgram setup name arguments p =
      (match Program.find? p.machine.files p.machine.base (bytesOf name)
          (searchPath p.environment) p.environment.currentDir with
        | none => notFound name
        | some program => do
          match ← ShellM.onMachine (Effect.launch setup.host
            (launchOf p.environment program (name :: arguments))) with
          | some status => return .external status.number
          | none => notFound name) { p with machine := p.machine.flushed } := by
  unfold runProgram
  rw [bind_of_ok (onMachine_flush h), get_bind]
  rfl

theorem runProgram_of_not_finds (h : p.machine.screen.NeverFails) {name : String}
    (hnot : ∀ program, ¬ Finds p name program) (setup : Setup) (arguments : List String) :
    runProgram setup name arguments p = notFound name { p with machine := p.machine.flushed } := by
  have hfind : Program.find? p.machine.files p.machine.base (bytesOf name)
      (searchPath p.environment) p.environment.currentDir = none := by
    rw [Option.eq_none_iff_forall_ne_some]
    exact fun program hprogram => hnot program (Program.find?_eq_some_iff.1 hprogram)
  rw [runProgram_eq h, hfind]

/-- **A program was to be started:** one more than before. The outcome is its status, or that
nothing was found if it could not be started. -/
structure Launched (host : Host) (p : Shell) (launch : Launch) (outcome : Outcome) (q : Shell) :
    Prop where
  launches : q.machine.launches = launch :: p.machine.launches
  outcome : outcome = match host.run p.machine.surroundings launch with
    | some report => .external report.status.number
    | none => .notFound

theorem runProgram_of_finds (h : p.machine.screen.NeverFails) {name : String} {program : Path}
    (hfinds : Finds p name program) (setup : Setup) (arguments : List String) : ∃ outcome q,
    runProgram setup name arguments p = .ok outcome q ∧
      Launched setup.host p (launchOf p.environment program (name :: arguments)) outcome q := by
  have hfind : Program.find? p.machine.files p.machine.base (bytesOf name)
      (searchPath p.environment) p.environment.currentDir = some program :=
    Program.find?_eq_some_iff.2 hfinds
  rw [runProgram_eq h, hfind]
  dsimp only
  generalize launchOf p.environment program (name :: arguments) = launch
  -- What is found by the program does not change when the screen is flushed.
  have hlaunch := Effect.launch_eq setup.host launch p.machine.flushed
  rw [show p.machine.flushed.surroundings = p.machine.surroundings from rfl] at hlaunch
  cases hreport : setup.host.run p.machine.surroundings launch with
  | none =>
    rw [hreport] at hlaunch
    have hnone : ShellM.onMachine (Effect.launch setup.host launch)
        { p with machine := p.machine.flushed }
        = .ok none { p with machine := p.machine.flushed.record (.launched launch) } := by
      rw [ShellM.onMachine, hlaunch]
    rw [bind_of_ok hnone]
    exact ⟨_, _, notFound_of_neverFails h.settled name, rfl, by rw [hreport]⟩
  | some report =>
    rw [hreport] at hlaunch
    have hsome : ShellM.onMachine (Effect.launch setup.host launch)
        { p with machine := p.machine.flushed }
        = .ok (some report.status) { p with machine := p.machine.flushed.ran launch report } := by
      rw [ShellM.onMachine, hlaunch]
    rw [bind_of_ok hsome]
    exact ⟨_, _, rfl, rfl, by rw [hreport]⟩

/-! ## Which way a command goes -/

/-- What a name must be like to be the name of a program, and what must not answer to it. -/
structure Free (setup : Setup) (env : Environment) (name : String) (arguments : List String) :
    Prop where
  plain : ∀ c ∈ name.toList, c ≠ '=' ∧ c ≠ '*' ∧ c ≠ '?'
  unanswered : ∀ entry ∈ setup.builtins, entry.command? env name arguments = none

theorem resolve_of_free {name : String} {arguments : List String}
    (h : Free setup p.environment name arguments) (directory : Path) :
    resolve setup directory name arguments p = runProgram setup name arguments p := by
  have hassign : name.toList.contains '=' = false := by
    simpa using fun hmem => (h.plain _ hmem).1 rfl
  have hanswer : setup.builtins.findSome? (·.command? p.environment name arguments) = none :=
    List.findSome?_eq_none_iff.2 h.unanswered
  have hpattern : Wildcard.isPattern name = false := by
    simpa [Wildcard.isPattern] using fun c hc => (h.plain c hc).2
  unfold resolve
  rw [get_bind]
  dsimp only
  rw [hassign, hanswer, hpattern]
  rfl

/-- A name of a builtin leads to that builtin. -/
theorem resolve_of_builtin (hbuiltins : setup.builtins = Builtin.table) (b : Builtin)
    (directory : Path) (arguments : List String) (p : Shell) :
    resolve setup directory b.name arguments p = runBuiltin (b.command arguments) p := by
  have hnamed : Builtin.named? b.name = some b := Builtin.named?_eq_some.2 rfl
  have hassign := not_assign_of_named hnamed
  unfold resolve
  rw [get_bind]
  dsimp only
  rw [hassign, hbuiltins, Builtin.findSome?_table, hnamed]
  rfl

/-- **Every other way is the same for all hosts,** and leads to no program. -/
theorem settles_resolve (h : p.machine.screen.NeverFails) {name : String}
    {arguments : List String}
    (hnot : ¬ (Free setup p.environment name arguments ∧ ∃ program, Finds p name program))
    (directory : Path) : ∃ way, Settles (IdleTable setup.builtins) way p ∧
      ∀ host, resolve { setup with host } directory name arguments p = way p := by
  -- The ways are tried in the order of the cases, and the last one needs a name that is free.
  by_cases hassign : name.toList.contains '=' = true
  · refine ⟨assign name, settles_assign h name, fun host => ?_⟩
    unfold resolve
    rw [get_bind]
    exact congrFun (if_pos hassign) p
  cases hanswer : setup.builtins.findSome? (·.command? p.environment name arguments) with
  | some command =>
    obtain ⟨entry, hentry, hcommand⟩ := List.exists_of_findSome?_eq_some hanswer
    refine ⟨runBuiltin command, settles_runBuiltin (fun hidle => ?_) p, fun host => ?_⟩
    · exact hidle entry hentry _ _ _ _ hcommand
    · unfold resolve
      rw [get_bind]
      dsimp only
      rw [if_neg hassign, hanswer]
  | none =>
    by_cases hpattern : Wildcard.isPattern name = true
    · refine ⟨expandWildcard setup name arguments directory,
        settles_expandWildcard h name arguments directory, fun host => ?_⟩
      unfold resolve
      rw [get_bind]
      dsimp only
      rw [if_neg hassign, hanswer]
      exact congrFun (if_pos hpattern) p
    · have hfree : Free setup p.environment name arguments := by
        refine ⟨fun c hc => ?_, List.findSome?_eq_none_iff.1 hanswer⟩
        simp only [Wildcard.isPattern, List.any_eq_true, Bool.or_eq_true, beq_iff_eq, not_exists,
          not_and, not_or] at hpattern
        refine ⟨?_, hpattern c hc⟩
        rintro rfl
        exact hassign (by simpa using hc)
      have hlost : ∀ program, ¬ Finds p name program := fun program hfinds =>
        hnot ⟨hfree, program, hfinds⟩
      refine ⟨fun p => notFound name { p with machine := p.machine.flushed }, ?_, fun host => ?_⟩
      · exact ⟨_, _, notFound_of_neverFails h.settled name, fun _ => rfl⟩
      · have hfree' : Free { setup with host } p.environment name arguments := ⟨hfree.1, hfree.2⟩
        rw [resolve_of_free hfree', runProgram_of_not_finds h hlost]

/-! ## One command -/

/-- **The command comes to a program:** the first word is not the one that leaves the shell, the
name behind the aliases is free, and there is a program of that name. -/
structure Starting (setup : Setup) (p : Shell) (words : List String) (name : String)
    (arguments : List String) (program : Path) : Prop where
  stays : words.head? ≠ some exitWord
  free : Free setup p.environment name arguments
  finds : Finds p name program

/-- The word that leaves the shell is settled before anything is looked up. -/
theorem dispatch_of_exit (setup : Setup) (p : Shell) {words : List String}
    (hexit : words.head? = some exitWord) : dispatch setup words p
      = .ok .exit { p with machine := p.machine.record (.dispatched words) } := by
  unfold dispatch
  rw [bind_of_ok (onMachine_note _ p)]
  cases words with
  | nil => cases hexit
  | cons first rest =>
    dsimp only
    rw [if_pos (Option.some.inj hexit)]
    rfl

/-- Two shells on whose screens the same was written. -/
def SameScreen (p q : Shell) : Prop := q.machine.screen = p.machine.screen

instance : IsPreorder Shell SameScreen where
  refl _ := rfl
  trans _ _ _ h h' := Eq.trans h' h

/-- Reading the aliases writes nothing. -/
theorem sameScreen_aliases (directory : Path) : Keeps SameScreen (aliases directory) := by
  have hnoted : ∀ notice,
      Keeps SameScreen (ShellM.onMachine (Effect.note (.noticed notice))) :=
    fun _ _ => ends_of_ok rfl rfl
  refine Keeps.get_bind fun shell => ?_
  dsimp only
  cases shell.machine.files.readText shell.machine.base (directory.join Alias.filePath) with
  | ok contents => exact (Keeps.forM (fun _ => hnoted _) _).bind fun _ => Keeps.pure _
  | error cause =>
    cases cause with
    | missing => exact Keeps.pure _
    | _ => exact (hnoted _).bind fun _ => Keeps.pure _

/-- **Up to its aliases every command is resolved alike,** on every screen, and nothing but notices
is given. The aliases are expanded once, and what comes of that is resolved. -/
theorem exists_dispatch_eq_resolve {directory : Path}
    (hdirectory : p.machine.currentDir = .ok directory) {words : List String}
    (hstays : words.head? ≠ some exitWord) {name : String} {arguments : List String}
    (hwords : (aliasesIn p.machine directory).spliced words = name :: arguments) :
    ∃ q, Calm p q ∧ SameScreen p q ∧ p.machine.Reaches [.dispatched words] q.machine ∧
      ∀ setup, dispatch setup words p = resolve setup directory name arguments q := by
  -- The journal has one more entry when the aliases are read, and nothing else is new.
  have hplace : (p.machine.record (.dispatched words)).currentDir = .ok directory := hdirectory
  have hnoted := (Machine.Step.dispatched p.machine words).reaches
  rw [← AliasTable.expand_eq_spliced] at hwords
  obtain ⟨_, q, haliases, rfl, hq⟩ := (ends_aliases directory
    { p with machine := p.machine.record (.dispatched words) }).exists_ok fun _ => id
  refine ⟨q, trans_of Calm (calm_dispatched words p) hq, ?_, ?_, fun setup => ?_⟩
  · have hscreen := (sameScreen_aliases directory _).ok _ q haliases
    exact hscreen
  · exact hnoted.trans_quiet ((quiet_aliases directory _).ok _ q haliases)
  · unfold dispatch
    rw [bind_of_ok (onMachine_note _ p)]
    cases words with
    | nil => cases hwords
    | cons first rest =>
      dsimp only
      rw [if_neg (by simpa using hstays), get_bind]
      dsimp only
      rw [hplace]
      dsimp only
      rw [bind_of_ok haliases]
      show (match (aliasesIn p.machine directory).expand (first :: rest) with
        | [] => pure .noOp
        | name :: arguments => resolve setup directory name arguments : ShellM Outcome) q = _
      rw [hwords]

/-- A screen that never fails is one also where the aliases were read. -/
theorem exists_dispatch_eq (h : p.machine.screen.NeverFails) {directory : Path}
    (hdirectory : p.machine.currentDir = .ok directory) {words : List String}
    (hstays : words.head? ≠ some exitWord) {name : String} {arguments : List String}
    (hwords : (aliasesIn p.machine directory).spliced words = name :: arguments) :
    ∃ q, Calm p q ∧ q.machine.screen.NeverFails ∧
      ∀ setup, dispatch setup words p = resolve setup directory name arguments q := by
  obtain ⟨q, hcalm, hscreen, -, hdispatch⟩ := exists_dispatch_eq_resolve hdirectory hstays hwords
  exact ⟨q, hcalm, hscreen ▸ h, hdispatch⟩

/-- **When a program is started, and with what.** If a command comes to a program, just this one is
to be started, with the words behind the aliases, the variables and the directory of the shell. If
it comes to none, it does the same whatever programs would do, so none is started for it; only a
builtin could start one by itself. -/
theorem dispatch_launches {setup : Setup} {p : Shell} {directory : Path} {words : List String}
    (hscreen : p.machine.screen.NeverFails) (hdirectory : p.machine.currentDir = .ok directory)
    (hwords : words ≠ []) : ∃ name arguments outcome q,
      (aliasesIn p.machine directory).spliced words = name :: arguments ∧
      dispatch setup words p = .ok outcome q ∧
      (∀ program, Starting setup p words name arguments program →
        Launched setup.host p
          ⟨program, name :: arguments, p.environment.vars, p.environment.currentDir⟩ outcome q) ∧
      ((∀ program, ¬ Starting setup p words name arguments program) →
        (∀ host, dispatch { setup with host } words p = .ok outcome q) ∧
        (IdleTable setup.builtins → q.machine.launches = p.machine.launches)) := by
  obtain ⟨name, arguments, hnamed⟩ :=
    (aliasesIn p.machine directory).exists_spliced_eq_cons hwords
  refine ⟨name, arguments, ?_⟩
  by_cases hstays : words.head? = some exitWord
  · refine ⟨.exit, _, hnamed, dispatch_of_exit setup p hstays, fun program hstart => ?_,
      fun _ => ?_⟩
    · exact absurd hstays hstart.stays
    · exact ⟨fun host => dispatch_of_exit _ p hstays, fun _ => rfl⟩
  obtain ⟨q, hcalm, hready, hdispatch⟩ := exists_dispatch_eq hscreen hdirectory hstays hnamed
  -- What the conditions are about is the same before the aliases were read and behind that.
  have henvironment : q.environment = p.environment := hcalm.environment
  have hfinds : ∀ program, Finds q name program ↔ Finds p name program := by
    intro program
    unfold Finds
    rw [hcalm.files, hcalm.base, henvironment]
  by_cases hstart : Free setup q.environment name arguments ∧ ∃ program, Finds q name program
  · obtain ⟨hfree, program, hprogram⟩ := hstart
    obtain ⟨outcome, r, hrun, hlaunched⟩ := runProgram_of_finds hready hprogram setup arguments
    refine ⟨outcome, r, hnamed, ?_, fun program' hstart => ?_, fun hnot => ?_⟩
    · rw [hdispatch, resolve_of_free hfree, hrun]
    · -- There is one program of a name at most.
      obtain rfl : program = program' := Option.some.inj <|
        (Program.find?_eq_some_iff.2 hprogram).symm.trans
          (Program.find?_eq_some_iff.2 ((hfinds program').2 hstart.finds))
      refine ⟨?_, ?_⟩
      · rw [hlaunched.launches, hcalm.launches, henvironment]
        rfl
      · rw [hlaunched.outcome, hcalm.surroundings, henvironment]
        rfl
    · rw [henvironment] at hfree
      exact absurd ⟨hstays, hfree, (hfinds program).1 hprogram⟩ (hnot program)
  · obtain ⟨way, ⟨outcome, r, hway, hidle⟩, hsame⟩ := settles_resolve hready hstart directory
    refine ⟨outcome, r, hnamed, ?_, fun program hprogram => ?_, fun _ => ⟨fun host => ?_, ?_⟩⟩
    · rw [hdispatch, ← hway]
      exact hsame setup.host
    · rw [henvironment] at hstart
      exact absurd ⟨hprogram.free, program, (hfinds program).2 hprogram.finds⟩ hstart
    · rw [hdispatch, hsame, hway]
    · intro htable
      rw [hidle htable, hcalm.launches]

/-! ### A program behind an alias -/

/-- A program `tool` in `bin`, and an alias for it. -/
def aliasedFiles : FileTree :=
  let files := (FileTree.empty.addDir (bytesOf "bin") [] .all).addDir (bytesOf ".files") [] .all
  let files := files.add (bytesOf "tool") [bytesOf "bin"] (.file [] .all)
  files.add (bytesOf "ALIAS") [bytesOf ".files"] (.file (bytesOf "t = 'tool -x'\n") .all)

/-- A shell in the root directory, with a search path that has empty and missing entries. -/
def aliasedShell : Shell :=
  ⟨.boot aliasedFiles, ⟨.ofList [("PATH", ":none:bin")], bytesOf "/", false⟩⟩

/-- A setup where every program ends well at once. -/
def obliging : Setup :=
  ⟨⟨fun surroundings _ => some ⟨.code 0, [], [], surroundings.files, 0⟩⟩, Builtin.table, .argument⟩

theorem starting_aliased : Starting obliging aliasedShell ["t", "y"] "tool" ["-x", "y"]
    (bytesOf "/bin/tool") where
  stays := by decide
  free := ⟨by simp, by decide⟩
  finds := Program.Found.searched [[], bytesOf "none"] (bytesOf "bin") [] (by decide) (by decide)
    (by decide) (by decide) (by decide) (by decide)

theorem spliced_aliased :
    (aliasesIn aliasedShell.machine (bytesOf "/")).spliced ["t", "y"] = ["tool", "-x", "y"] := by
  have hread : aliasedShell.machine.files.read aliasedShell.machine.base
      (Path.join (bytesOf "/") Alias.filePath) = .ok (bytesOf "t = 'tool -x'\n") := by
    decide
  have htext : aliasedShell.machine.files.readText aliasedShell.machine.base
      (Path.join (bytesOf "/") Alias.filePath) = .ok "t = 'tool -x'\n" := by
    unfold FileTree.readText
    rw [hread, except_ok_bind, stringOf?_bytesOf]
  rw [aliasesIn, htext]
  decide

/-- The alias is expanded, the empty and the missing entry of the search path are passed over, and
the program is started once. -/
theorem dispatch_launches_aliased : ∃ q,
    dispatch obliging ["t", "y"] aliasedShell = .ok (.external 0) q ∧
      q.machine.launches = [⟨bytesOf "/bin/tool", ["tool", "-x", "y"],
        aliasedShell.environment.vars, bytesOf "/"⟩] := by
  obtain ⟨name, arguments, outcome, q, hwords, hdispatch, hlaunched, -⟩ :=
    @dispatch_launches obliging aliasedShell (bytesOf "/") ["t", "y"] Screen.neverFails_unlimited
      rfl (by decide)
  rw [spliced_aliased] at hwords
  cases hwords
  obtain ⟨hlaunches, houtcome⟩ := hlaunched _ starting_aliased
  exact ⟨q, by rw [hdispatch, houtcome]; rfl, hlaunches⟩

end Dispatch

end LineShell
