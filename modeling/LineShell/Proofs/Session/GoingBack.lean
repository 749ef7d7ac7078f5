import LineShell.Proofs.Session.ChangingDirectory
import LineShell.Proofs.Shell.InTurn
import LineShell.Proofs.Shell.Starting
/-!
The way back as a line.

`cd` goes back if it is asked to go to `-`. But a word with a dash in front is an option as long as
options have not ended, and so is a dash alone, so the arguments that ask for the way back are `--`
and `-`, and no others (`Builtin.request?_back_iff`). The line `cd -` is refused and changes
nothing; the line `cd -- -` changes the two directories over, and does so again from there
(`runLine_back`).
-/

set_option autoImplicit false

namespace LineShell

/-! ## Arguments that ask for the way back -/

namespace Grammar

variable {g : Grammar} {name description : String}

theorem takeWord_eq_ok_iff (hg : g.positional = .single name description) {read next : Arguments}
    {word : String} : g.takeWord read word = .ok next ↔
      read.words = [] ∧ next = { read with words := [word] } := by
  unfold takeWord
  rw [hg]
  dsimp only
  by_cases hempty : read.words = []
  · simp [hempty, eq_comm]
  · simp [hempty]

/-- **Nothing that was read is taken back:** help stays asked for, and a command that takes one word
keeps the first one. -/
theorem readOn_keeps (hg : g.positional = .single name description) {read last : Arguments}
    {arguments : List String} (h : g.readOn read arguments = .ok last) :
    (read.help = true → last.help = true) ∧ (read.words ≠ [] → last.words = read.words) := by
  -- Help is set by one case alone and words by another; all others hand on what was read.
  fun_induction readOn g read arguments with
  | case1 read =>
    cases h
    exact ⟨id, fun _ => rfl⟩
  | case2 read word rest _ ih =>
    obtain ⟨hhelp, hwords⟩ := ih h
    exact ⟨fun _ => hhelp rfl, hwords⟩
  | case3 read rest _ _ ih => exact ih h
  | case6 read word rest _ _ _ _ o _ _ ih => exact ih h
  | case9 read word _ _ _ _ o _ _ value rest _ ih => exact ih h
  | case10 read word rest _ _ next htake ih =>
    obtain ⟨hempty, rfl⟩ := (takeWord_eq_ok_iff hg).1 htake
    exact ⟨(ih h).1, fun hwords => absurd hempty hwords⟩
  | case4 | case5 | case7 | case8 | case11 => cases h

end Grammar

namespace Builtin

theorem request?_cd_eq_some_iff {arguments : List String} {target : Option String} :
    cd.request? arguments = some (.changeDir target) ↔ ∃ last,
      cd.grammar.read arguments = .ok last ∧ last.help = false ∧ last.words.head? = target := by
  unfold request?
  cases cd.grammar.read arguments with
  | error refusal => simp
  | ok last => simp [request]

/-- Behind the end of the options a dash is a word, and the only one. -/
theorem eq_of_read_ended {read last : Arguments} {arguments : List String}
    (hended : read.ended = true) (hwords : read.words = [])
    (h : cd.grammar.readOn read arguments = .ok last) (hhead : last.words.head? = some "-") :
    arguments = ["-"] := by
  cases arguments with
  | nil =>
    cases h
    rw [hwords] at hhead
    cases hhead
  | cons word rest =>
    simp only [Grammar.readOn, hended, Bool.not_true, Bool.false_and, Bool.false_eq_true,
      if_false] at h
    cases htake : cd.grammar.takeWord read word with
    | error refusal =>
      rw [htake] at h
      cases h
    | ok next =>
      rw [htake] at h
      obtain ⟨-, rfl⟩ := (Grammar.takeWord_eq_ok_iff rfl).1 htake
      have hlast := (Grammar.readOn_keeps rfl h).2 (List.cons_ne_nil _ _)
      rw [hlast, List.head?_cons, Option.some.injEq] at hhead
      cases rest with
      | nil => rw [hhead]
      | cons second others =>
        -- There is no room for a second word.
        simp [Grammar.readOn, hended, Grammar.takeWord, grammar] at h

/-- **`cd` is asked to go back only behind the end of the options.** -/
theorem request?_back_iff (arguments : List String) :
    cd.request? arguments = some (.changeDir (some "-")) ↔ arguments = ["--", "-"] := by
  constructor
  · intro h
    obtain ⟨last, hread, hhelp, hhead⟩ := request?_cd_eq_some_iff.1 h
    cases arguments with
    | nil =>
      cases hread
      cases hhead
    | cons word rest =>
      unfold Grammar.read Grammar.readOn at hread
      split_ifs at hread with hasks hdash hends hhelped
      · rw [(Grammar.readOn_keeps rfl hread).1 rfl] at hhelp
        cases hhelp
      · rw [hends, eq_of_read_ended rfl rfl hread hhead]
      · -- There is no option that this could be.
        cases hread
      · have htake : cd.grammar.takeWord .none word = .ok { Arguments.none with words := [word] } :=
          (Grammar.takeWord_eq_ok_iff rfl).2 ⟨rfl, rfl⟩
        rw [htake] at hread
        have hlast := (Grammar.readOn_keeps rfl hread).2 (List.cons_ne_nil _ _)
        rw [hlast, List.head?_cons, Option.some.injEq] at hhead
        subst hhead
        exact absurd (by decide) hdash
  · rintro rfl
    decide

end Builtin

/-! ## The two lines -/

namespace Dispatch

variable {setup : Setup} {p : Shell}

/-- **A line that calls a builtin,** by a name that is no alias. -/
theorem runLine_of_builtin (hbuiltins : setup.builtins = Builtin.table)
    (hscreen : p.machine.screen.NeverFails) {directory : Path}
    (hdirectory : p.machine.currentDir = .ok directory) {b : Builtin} (hname : b.name ≠ exitWord)
    (halias : (aliasesIn p.machine directory).get? b.name = none) {line : String}
    {arguments : List String} (hline : commandsOf line = [line])
    (hwords : wordsOf line = b.name :: arguments) :
    ∃ p', Calm p p' ∧ p'.machine.screen.NeverFails ∧ ∀ status q,
      b.command arguments p' = .ok status q → q.machine.screen.NeverFails →
        runLine setup line p
          = .ok [if q.environment.shouldExit then .exit else .builtin status]
              { q with machine := q.machine.flushed } := by
  have hstays : (b.name :: arguments).head? ≠ some exitWord := fun hexit =>
    hname (Option.some.inj hexit)
  have hspliced : (aliasesIn p.machine directory).spliced (b.name :: arguments)
      = b.name :: arguments := by
    simp [AliasTable.spliced, halias]
  obtain ⟨p', hcalm, hready, hdispatch⟩ := exists_dispatch_eq hscreen hdirectory hstays hspliced
  refine ⟨p', hcalm, hready, fun status q hcommand hq => ?_⟩
  have houtcome : dispatch setup (wordsOf line) p
      = .ok (if q.environment.shouldExit then .exit else .builtin status) q := by
    rw [hwords, hdispatch, resolve_of_builtin hbuiltins, runBuiltin_of_ok hcommand]
  refine runLine_of_runCommands hq ?_
  rw [hline, runCommands, bind_of_ok houtcome]
  split
  · rfl
  · rfl

end Dispatch

/-! ## Going back and returning -/

namespace FileTree

/-- A path from the root is read without looking where one is. -/
theorem readText_of_isAbsolute {path : Path} (h : path.isAbsolute = true) (tree : FileTree)
    (base base' : Option Place) : tree.readText base path = tree.readText base' path := by
  unfold readText read look find locate startWithin startOf
  simp only [h, if_true]

end FileTree

open Dispatch

variable {setup : Setup} {p q : Shell} {a b : Place} {resolved : Path}

theorem Dispatch.aliasesIn_of_files (hfiles : q.machine.files = p.machine.files)
    (hresolved : resolved.isAbsolute = true) :
    aliasesIn q.machine resolved = aliasesIn p.machine resolved := by
  unfold aliasesIn
  rw [hfiles, FileTree.readText_of_isAbsolute (Path.isAbsolute_join hresolved _) _ _
    p.machine.base]

namespace Builtin

theorem Leads.of_calm {target : Option String} (h : Leads target p resolved) (hcalm : Calm p q) :
    Leads target q resolved := by
  have henvironment : q.environment = p.environment := hcalm.environment
  refine ⟨?_, ?_⟩
  · rw [henvironment, hcalm.files, hcalm.base]
    exact h.found
  · rw [hcalm.files, hcalm.base]
    exact h.enters

theorem Between.of_calm (h : Between a b p) (hcalm : Calm p q) : Between a b q := by
  have henvironment : q.environment = p.environment := hcalm.environment
  refine ⟨?_, ?_, ?_⟩
  · unfold Machine.currentDir
    rw [hcalm.base]
    exact h.process
  · rw [henvironment]
    exact h.directory
  · rw [henvironment]
    exact h.previous

end Builtin

/-- The outcome of a command of the shell with a status, in a session that may have been asked to
stop before. -/
def Outcome.ofStatus (p : Shell) (status : Nat) : Outcome :=
  if p.environment.shouldExit then .exit else .builtin status

/-- The arguments of the line `cd -` are refused, whatever there is to go back to. -/
theorem Builtin.command_dash (h : p.machine.screen.NeverFails) : cd.command ["-"] p
    = .ok 1 { p with machine := p.machine.wrote "Unrecognized argument: -\n" } := by
  have hread : cd.grammar.read ["-"] = .error (.unrecognized "-") := by decide
  have htext : String.ofList (Text.trimEnd (Refusal.unrecognized "-").message.toList) ++ "\n"
      = "Unrecognized argument: -\n" := by decide
  unfold command
  rw [hread]
  show tell (Refusal.unrecognized "-").message 1 p = _
  rw [tell_of_neverFails h, htext]

/-- **One way back,** where it leads somewhere. -/
theorem runLine_back_once (hbuiltins : setup.builtins = Builtin.table)
    (hscreen : p.machine.screen.NeverFails) (hinplace : p.InPlace)
    (hdirectory : p.environment.currentDir = Place.path a)
    (halias : (aliasesIn p.machine (Place.path a)).get? "cd" = none)
    (hleads : Builtin.Leads (some "-") p resolved) : ∃ b q, resolved = Place.path b ∧
      runLine setup "cd -- -" p = .ok [.ofStatus p 0] q ∧ q.machine.screen.NeverFails ∧
      q.machine.files = p.machine.files ∧ q.environment.shouldExit = p.environment.shouldExit ∧
      q.environment.get? "PWD" = some (stringOf resolved) ∧ Builtin.Between a b q := by
  have hprocess : p.machine.currentDir = .ok (Place.path a) := hinplace.trans (by rw [hdirectory])
  obtain ⟨p', hcalm, hready, hrun⟩ := @runLine_of_builtin setup p hbuiltins hscreen _ hprocess .cd
    (by decide) halias "cd -- -" ["--", "-"] (by decide) (by decide)
  have henvironment : p'.environment = p.environment := hcalm.environment
  have hanchored : p'.Anchored := .inl (by
    rw [henvironment, hdirectory]
    exact Place.isAbsolute_path a)
  obtain ⟨b, q, -, rfl, hcommand, hmoved⟩ :=
    Builtin.run_of_leads hanchored (hleads.of_calm hcalm)
  obtain ⟨dir, hmachine⟩ := hmoved.machine
  have hscreen' : q.machine.screen.NeverFails := by
    rw [hmachine]
    exact hready
  have hbetween : Builtin.Between a b q := .of_moved hmoved (by rw [henvironment, hdirectory])
  have hshould : q.environment.shouldExit = p.environment.shouldExit := by
    rw [hmoved.shouldExit, henvironment]
  -- Flushing the screen moves nothing.
  have hflushed : Calm q { q with machine := q.machine.flushed } := ⟨rfl, rfl, rfl, rfl, rfl⟩
  refine ⟨b, { q with machine := q.machine.flushed }, rfl, ?_, hscreen'.settled, ?_, hshould,
    hmoved.present, hbetween.of_calm hflushed⟩
  · rw [hrun 0 q hcommand hscreen', hshould]
    rfl
  · rw [hflushed.files, hmachine, hcalm.files]

/-- **The way back.** The arguments that ask for it are `--` and `-`, so the line `cd -` is refused
and leaves everything as it is. The line `cd -- -` leads to the directory that `OLDPWD` names, for
the shell and for the process, and sets the two variables that tell of the move; once more it leads
to where it came from. -/
theorem runLine_back (hbuiltins : setup.builtins = Builtin.table)
    (hscreen : p.machine.screen.NeverFails) (hinplace : p.InPlace)
    (hdirectory : p.environment.currentDir = Place.path a) (ha : a.Tellable)
    (hopens : p.machine.files.Opens a) (hleads : Builtin.Leads (some "-") p resolved)
    (halias : ∀ directory ∈ [Place.path a, resolved],
      (aliasesIn p.machine directory).get? "cd" = none) :
    (∀ arguments, Builtin.cd.request? arguments = some (.changeDir (some "-")) ↔
      arguments = ["--", "-"]) ∧
    (∃ q, runLine setup "cd -" p = .ok [.ofStatus p 1] q ∧ Calm p q) ∧
    ∃ q, runLine setup "cd -- -" p = .ok [.ofStatus p 0] q ∧
      q.machine.currentDir = .ok resolved ∧ q.environment.currentDir = resolved ∧
      q.environment.get? "PWD" = some (stringOf resolved) ∧
      q.environment.get? "OLDPWD" = some (stringOf (Place.path a)) ∧
      ∃ r, runLine setup "cd -- -" q = .ok [.ofStatus p 0] r ∧
        r.machine.currentDir = .ok (Place.path a) ∧ r.environment.currentDir = Place.path a := by
  have hhere : (aliasesIn p.machine (Place.path a)).get? "cd" = none := halias _ (by simp)
  refine ⟨Builtin.request?_back_iff, ?_, ?_⟩
  -- The refusal is written, and a shell that only wrote something is where it was.
  · have hprocess : p.machine.currentDir = .ok (Place.path a) := hinplace.trans (by rw [hdirectory])
    obtain ⟨p', hcalm, hready, hrun⟩ := @runLine_of_builtin setup p hbuiltins hscreen _ hprocess .cd
      (by decide) hhere "cd -" ["-"] (by decide) (by decide)
    have henvironment : p'.environment = p.environment := hcalm.environment
    have hrefused := hrun 1 _ (Builtin.command_dash hready) (hready.accept _)
    have hwrote : Calm p'
        { p' with machine := (p'.machine.wrote "Unrecognized argument: -\n").flushed } :=
      ⟨rfl, rfl, rfl, rfl, rfl⟩
    refine ⟨_, ?_, trans_of Calm hcalm hwrote⟩
    rw [Outcome.ofStatus, ← henvironment]
    exact hrefused
  · obtain ⟨b, q, rfl, hrun, hready, hfiles, hshould, hpresent, hbetween⟩ :=
      runLine_back_once hbuiltins hscreen hinplace hdirectory hhere hleads
    have hthere : (aliasesIn q.machine (Place.path b)).get? "cd" = none := by
      rw [aliasesIn_of_files hfiles (Place.isAbsolute_path b)]
      exact halias _ (by simp)
    have hadmits : p.machine.files.Admits a := ⟨ha.fit, hopens⟩
    have hback : Builtin.Leads (some "-") q (Place.path a) :=
      { found := ⟨_, hbetween.destination ha.text, hfiles ▸ hadmits.canonical _⟩
        enters := hfiles ▸ hadmits.exists_workDirOf _ }
    obtain ⟨c, r, hc, hrun', -, -, -, -, hbetween'⟩ := runLine_back_once hbuiltins hready
      (hbetween.process.trans (by rw [hbetween.directory])) hbetween.directory hthere hback
    refine ⟨q, hrun, hbetween.process, hbetween.directory, hpresent, hbetween.previous, r, ?_, ?_,
      ?_⟩
    · rw [hrun', Outcome.ofStatus, Outcome.ofStatus, hshould]
    · rw [hbetween'.process, hc]
    · rw [hbetween'.directory, hc]

/-! ### A directory that was left -/

/-- A shell in the root directory that was in `d` before. -/
def returning : Shell where
  machine := .boot (FileTree.empty.addDir (bytesOf "d") [] .all)
  environment := ⟨.ofList [("OLDPWD", "/d")], bytesOf "/", false⟩

theorem admits_returning : returning.machine.files.Admits [bytesOf "d"] := by decide

theorem leads_returning : Builtin.Leads (some "-") returning (bytesOf "/d") where
  found := ⟨bytesOf "/d", by decide, admits_returning.canonical _⟩
  enters := admits_returning.exists_workDirOf _

theorem alias_returning : ∀ directory ∈ [bytesOf "/", bytesOf "/d"],
    (aliasesIn returning.machine directory).get? "cd" = none := by
  decide

/-- A setup of the usual builtins, with programs that cannot be started. -/
def plainSetup : Setup := ⟨⟨fun _ _ => none⟩, Builtin.table, .argument⟩

/-- **There is a way back, but the line `cd -` is refused.** -/
theorem runLine_back_refused : Builtin.Leads (some "-") returning (bytesOf "/d") ∧
    returning.environment.get? "OLDPWD" = some "/d" ∧
    (∀ directory ∈ [bytesOf "/", bytesOf "/d"],
      (aliasesIn returning.machine directory).get? "cd" = none) ∧
    (runLine plainSetup "cd -").run' returning = some [.builtin 1] :=
  ⟨leads_returning, by decide, alias_returning, by decide +kernel⟩

/-- The line `cd -- -` leads to `d`, and then back to the root. -/
theorem runLine_back_returning : ∃ q r,
    runLine plainSetup "cd -- -" returning = .ok [.builtin 0] q ∧
      q.machine.currentDir = .ok (bytesOf "/d") ∧ q.environment.get? "PWD" = some "/d" ∧
      runLine plainSetup "cd -- -" q = .ok [.builtin 0] r ∧
      r.machine.currentDir = .ok (bytesOf "/") := by
  have hroot : Place.Tellable [] := ⟨Place.fit_nil, "/", rfl⟩
  obtain ⟨-, -, q, hrun, hprocess, -, hpresent, -, r, hrun', hprocess', -⟩ :=
    @runLine_back plainSetup returning [] (bytesOf "/d") rfl Screen.neverFails_unlimited rfl rfl
      hroot (by decide) leads_returning alias_returning
  exact ⟨q, r, hrun, hprocess, hpresent.trans (by rw [stringOf_bytesOf]), hrun', hprocess'⟩

end LineShell
