import LineShell.Programs.Standard
import LineShell.Proofs.Files.Canonical
import LineShell.Proofs.Session.Frame
import LineShell.Proofs.Session.Rounds
/-!
The machine and the environment of a session are in one directory.

The machine knows its directory by a number, and finds its path anew each time; the environment
keeps the path that `cd` found. What ties the two is that a canonical path leads back to the place
that it was made for (`FileTree.look_path`), so `cd` comes to a machine and an environment that
agree, and fails with both of them as they were. No other command moves either of them. Reading a
line and logging it moves no directory, as files are only made and written. So the two agree behind
every command of every run (`Session.inPlace_of_reached`).
-/

set_option autoImplicit false

namespace LineShell

/-! ## One directory -/

/-- **The machine is in the directory that the environment names.** -/
def Shell.InPlace (shell : Shell) : Prop :=
  shell.machine.currentDir = .ok shell.environment.currentDir

theorem Machine.currentDir_eq_ok {m : Machine} {path : Path} :
    m.currentDir = .ok path ↔ ∃ place, m.base = some place ∧ Place.path place = path := by
  unfold Machine.currentDir
  cases m.base with
  | none => simp
  | some place => simp

namespace Shell.InPlace

variable {p q : Shell}

theorem of_same (h : p.InPlace) (hbase : q.machine.base = p.machine.base)
    (hdir : q.environment.currentDir = p.environment.currentDir) : q.InPlace := by
  unfold InPlace Machine.currentDir
  rw [hbase, hdir]
  exact h

theorem calm (h : p.InPlace) (hcalm : Calm p q) : q.InPlace := by
  have henvironment : q.environment = p.environment := hcalm.environment
  refine h.of_same hcalm.base ?_
  rw [henvironment]

theorem isAbsolute (h : p.InPlace) : p.environment.currentDir.isAbsolute = true := by
  obtain ⟨place, -, hpath⟩ := Machine.currentDir_eq_ok.1 h
  rw [← hpath]
  exact Place.isAbsolute_path place

end Shell.InPlace

/-! ## Changing the directory -/

/-- **A directory that is entered by a canonical path** stands at the place of the path. -/
theorem FileTree.placeOf_of_workDirOf {tree : FileTree} {base : Option Place} {place : Place}
    {dir : WorkDir} (hstraight : tree.Straight place)
    (h : tree.workDirOf base (Place.path place) = .ok dir) :
    tree.placeOf dir.place dir.number = some place := by
  unfold workDirOf at h
  split at h
  · next found number rights hlook =>
    obtain ⟨rfl, hnode⟩ := look_path hstraight hlook
    split at h
    · cases h
      have hnumber : tree.isNumberAt found number = true := by
        unfold isNumberAt
        rw [hnode]
        exact beq_self_eq_true number
      rw [placeOf, if_pos hnumber]
    · cases h
  · cases h
  · cases h

namespace Builtin

theorem isAbsolute_destination {env : Environment} {target : Option String} {requested : Path}
    (henv : env.currentDir.isAbsolute = true) (h : destination env target = .ok requested) :
    requested.isAbsolute = true := by
  have hjoined {found : Except Failure String}
      (h : (do return env.currentDir.join (bytesOf (← found))) = Except.ok requested) :
      requested.isAbsolute = true := by
    obtain ⟨written, -, h⟩ := except_bind_eq_ok.1 h
    cases h
    exact Path.isAbsolute_join henv (bytesOf written)
  unfold destination at h
  dsimp only at h
  split at h
  · exact hjoined h
  · exact hjoined h
  · split at h
    · exact hjoined h
    · cases h
  · exact hjoined h

/-- **A successful `cd`** leads to a machine and an environment that agree. -/
theorem inPlace_changeDir {target : Option String} {shell moved : Shell} (hshell : shell.InPlace)
    (h : changeDir target shell = .ok moved) : moved.InPlace := by
  obtain ⟨requested, resolved, dir, hrequested, hresolved, hdir, hmachine, henvironment⟩ :=
    exists_of_changeDir h
  have habsolute := isAbsolute_destination hshell.isAbsolute hrequested
  obtain ⟨place, hstraight, rfl⟩ := FileTree.exists_of_canonical habsolute hresolved
  have hbase : moved.machine.base = some place := by
    rw [hmachine]
    exact FileTree.placeOf_of_workDirOf hstraight hdir
  refine Machine.currentDir_eq_ok.2 ⟨place, hbase, ?_⟩
  rw [henvironment]
  rfl

end Builtin

theorem Dispatch.inPlace_of_becomes {p q : Shell} {words : List String} (hp : p.InPlace)
    (h : Becomes p (changes p words) q) : q.InPlace := by
  by_cases hstays : (changes p words).1.currentDir = p.environment.currentDir ∧
      (changes p words).2 = p.machine.workDir
  · refine hp.of_same ?_ ?_
    · rw [Machine.base, Machine.base, h.files, h.workDir, hstays.2]
    · rw [h.environment, hstays.1]
  · obtain ⟨moved, hmoves⟩ := directory_changes (Decidable.not_and_iff_or_not.1 hstays)
    obtain ⟨target, -, hmove⟩ := id hmoves
    obtain ⟨_, _, _, -, -, -, hmachine, -⟩ := Builtin.exists_of_changeDir hmove
    have hfiles : moved.machine.files = p.machine.files := by rw [hmachine]
    rw [changes_of_moves hmoves] at h
    have henvironment : q.environment = moved.environment := h.environment
    have hworkDir : q.machine.workDir = moved.machine.workDir := h.workDir
    refine (Builtin.inPlace_changeDir hp hmove).of_same ?_ ?_
    · rw [Machine.base, Machine.base, h.files, hfiles, hworkDir]
    · rw [henvironment]

/-! ## Commands -/

/-- **The program that a command starts,** if it starts one, leaves the directory at its place. -/
def Spares (setup : Setup) (words : List String) (p : Shell) : Prop :=
  ∀ launch report,
    (endOf (dispatch setup words p)).machine.launches = launch :: p.machine.launches →
    setup.host.run p.machine.surroundings launch = some report →
    report.files.placeOf p.machine.workDir.place p.machine.workDir.number = p.machine.base

/-- **The commands that are taken up** when some are run one after the other, each with the shell
that it finds. -/
inductive TakesUp (setup : Setup) : List String → Shell → List String → Shell → Prop where
  | head (command : String) (rest : List String) (p : Shell) :
      TakesUp setup (command :: rest) p (wordsOf command) p
  | tail {command : String} {rest words : List String} {p q r : Shell} {outcome : Outcome}
      (hfirst : dispatch setup (wordsOf command) p = .ok outcome q)
      (hgoes : outcome.endsLine = false) (h : TakesUp setup rest q words r) :
      TakesUp setup (command :: rest) p words r

section

variable {setup : Setup} {words commands : List String} {p q : Shell}

/-- **One command** leaves the two in agreement, whether it succeeds or not. -/
theorem inPlace_dispatch (hbuiltins : setup.builtins = Builtin.table) (hp : p.InPlace)
    (hspares : Spares setup words p) : (endOf (dispatch setup words p)).InPlace := by
  rcases follows_dispatch hbuiltins words p with hbecomes | ⟨-, -, hstarts⟩
  · exact Dispatch.inPlace_of_becomes hp hbecomes
  · obtain ⟨launch, hlaunches, -, -, hfiles⟩ := hstarts.launched
    refine hp.of_same ?_ (congrArg Environment.currentDir hstarts.environment)
    rw [Machine.base, hstarts.workDir]
    rcases hfiles with hsame | ⟨report, hrun, hleft⟩
    · rw [hsame]
      rfl
    · rw [hleft]
      exact hspares launch report hlaunches hrun

theorem spares_of_called (hbuiltins : setup.builtins = Builtin.table)
    {call : Builtin × List String} (h : Dispatch.called? p words = some call) :
    Spares setup words p := by
  intro launch report hlaunches
  rcases follows_dispatch hbuiltins words p with hbecomes | ⟨⟨expanded, hexpanded, hnone⟩, -, -⟩
  · rw [hbecomes.launches] at hlaunches
    exact absurd hlaunches (List.cons_ne_self launch _).symm
  · rw [Dispatch.called?, hexpanded, Option.bind_some, hnone] at h
    cases h

theorem TakesUp.inPlace (hbuiltins : setup.builtins = Builtin.table)
    (h : TakesUp setup commands p words q) (hp : p.InPlace)
    (hspares : ∀ words q, TakesUp setup commands p words q → Spares setup words q) :
    q.InPlace := by
  induction h with
  | head command rest p => exact hp
  | tail hfirst hgoes _ ih =>
    have hnext := inPlace_dispatch hbuiltins hp (hspares _ _ (.head _ _ _))
    rw [hfirst] at hnext
    exact ih hnext fun words r hr => hspares words r (.tail hfirst hgoes hr)

/-- Commands that are run end where the last of them does that was taken up. -/
theorem endOf_runCommands (setup : Setup) (commands : List String) (p : Shell) :
    endOf (runCommands setup commands p) = p ∨ ∃ words q, TakesUp setup commands p words q ∧
      endOf (runCommands setup commands p) = endOf (dispatch setup words q) := by
  induction commands generalizing p with
  | nil => exact .inl rfl
  | cons command rest ih =>
    refine .inr ?_
    rw [runCommands]
    cases hfirst : dispatch setup (wordsOf command) p with
    | error cause q =>
      rw [bind_of_error hfirst]
      exact ⟨_, p, .head command rest p, by rw [hfirst]; rfl⟩
    | ok outcome q =>
      rw [bind_of_ok hfirst]
      cases hends : outcome.endsLine with
      | true => exact ⟨_, p, .head command rest p, by rw [hfirst]; rfl⟩
      | false =>
        have hrest : endOf ((do return outcome :: (← runCommands setup rest) :
            ShellM (List Outcome)) q) = endOf (runCommands setup rest q) := by
          cases hrun : runCommands setup rest q with
          | ok outcomes r =>
            rw [bind_of_ok hrun]
            rfl
          | error cause r =>
            rw [bind_of_error hrun]
        rw [if_neg Bool.false_ne_true, hrest]
        rcases ih q with hnone | ⟨words, r, htaken, hlast⟩
        · exact ⟨_, p, .head command rest p, by rw [hnone, hfirst]; rfl⟩
        · exact ⟨words, r, .tail hfirst hends htaken, hlast⟩

theorem inPlace_runLine (hbuiltins : setup.builtins = Builtin.table) (line : String)
    (hp : p.InPlace)
    (hspares : ∀ words q, TakesUp setup (commandsOf line) p words q → Spares setup words q) :
    (endOf (runLine setup line p)).InPlace := by
  have hcommands : (endOf (runCommands setup (commandsOf line) p)).InPlace := by
    rcases endOf_runCommands setup (commandsOf line) p with hnone | ⟨words, q, htaken, hlast⟩
    · rw [hnone]
      exact hp
    · rw [hlast]
      have hq := htaken.inPlace hbuiltins hp hspares
      exact inPlace_dispatch hbuiltins hq (hspares words q htaken)
  have hflush : Keeps Calm (ShellM.onMachine Effect.flush) :=
    ShellM.calm_onMachine Effect.calm_flush
  unfold runLine
  refine Ends.endOf (Ends.bind (ends_of_endOf hcommands) fun outcomes q hq => ?_)
  refine (hflush q).bind_mono (fun _ hr => hq.calm hr) fun _ r hr => ends_pure (hq.calm hr)

end

/-! ## At the desk -/

/-- The directory of the machine stands where it stood. -/
def Desk.SameBase (before after : Desk) : Prop := after.machine.base = before.machine.base

instance : IsPreorder Desk Desk.SameBase where
  refl _ := rfl
  trans _ _ _ h h' := Eq.trans h' h

theorem DeskM.sameBase_onMachine {α : Type} {effect : Effect α} {fault : Cause → SessionError}
    (h : ∀ m, Ends effect m (fun _ n => n.base = m.base) fun n => n.base = m.base) :
    Keeps Desk.SameBase (onMachine fault effect) := fun desk =>
  (ends_onMachine (h desk.machine)).mono (fun _ _ h => h.1) fun _ h => h.1

namespace Effect

theorem base_openFile (path : Path) (m : Machine) :
    Ends (openFile path) m (fun _ n => n.base = m.base) fun n => n.base = m.base := by
  cases hopen : m.files.openFile m.base path .plain with
  | error cause => exact ends_of_error (History.openFile_of_error hopen) rfl
  | ok opened =>
    obtain ⟨place, files⟩ := opened
    refine ends_of_ok (History.openFile_of_ok hopen) ?_
    obtain ⟨-, ⟨rfl, -⟩ | ⟨-, hgrows, -⟩⟩ := FileTree.openFile_eq_ok (Machine.base_stands m) hopen
    · rfl
    · exact hgrows.placeOf _ _

theorem base_append (place : Place) (bytes : Bytes) (m : Machine) :
    Ends (append place bytes) m (fun _ n => n.base = m.base) fun n => n.base = m.base := by
  cases hfull : m.files.isFullAt place with
  | true =>
    have heq : append place bytes m = .error .noSpace m := by
      unfold append
      rw [get_bind, hfull]
      rfl
    exact ends_of_error heq rfl
  | false =>
    refine ends_of_ok (History.append_of_not_full bytes hfull) ?_
    rcases FileTree.appendAt_eq_or m.files place bytes with hsame | hgrows
    · show (m.files.appendAt place bytes).placeOf _ _ = _
      rw [hsame]
      rfl
    · exact hgrows.placeOf _ _

end Effect

/-- What opening and appending keep is kept when a line is persisted. -/
theorem History.keeps_persist {R : Desk → Desk → Prop} [IsPreorder Desk R]
    (hopen : ∀ fault path, Keeps R (DeskM.onMachine fault (Effect.openFile path)))
    (happend : ∀ fault place bytes, Keeps R (DeskM.onMachine fault (Effect.append place bytes)))
    (line : String) : Keeps R (persist line) := by
  refine Keeps.get_bind fun desk => ?_
  cases desk.history.logs with
  | none => exact Keeps.pure PUnit.unit
  | some logs =>
    refine (hopen _ logs.memory).bind fun memory => (hopen _ logs.session).bind fun session => ?_
    exact (happend _ memory _).bind fun _ => happend _ session _

theorem History.sameBase_persist (line : String) : Keeps Desk.SameBase (persist line) :=
  keeps_persist (fun _ path => DeskM.sameBase_onMachine (Effect.base_openFile path))
    (fun _ place bytes => DeskM.sameBase_onMachine (Effect.base_append place bytes)) line

theorem Editor.sameBase_readLine (maxLength : Nat) (prompt : String) :
    Keeps Desk.SameBase (readLine maxLength prompt) := by
  have hbase {before after : Desk} (h : before.Calm after) : before.SameBase after := by
    unfold Desk.SameBase Machine.base
    rw [h.place.files, h.place.workDir]
  intro desk
  exact (calm_readLine maxLength prompt desk).mono (fun _ _ h => hbase h.1) fun _ h => hbase h

theorem SessionM.inPlace_atDesk {α : Type} {action : DeskM α} {s : Session}
    (h : Keeps Desk.SameBase action) (hs : s.shell.InPlace) :
    Ends (atDesk action) s (fun _ t => t.shell.InPlace) fun t => t.shell.InPlace := by
  have hends := h s.desk
  have hput {desk : Desk} (hdesk : s.desk.SameBase desk) : (s.withDesk desk).shell.InPlace :=
    hs.of_same hdesk rfl
  cases hrun : action s.desk with
  | ok a desk => exact ends_of_ok (atDesk_of_ok hrun) (hput (hends.ok a desk hrun))
  | error e desk => exact ends_of_error (atDesk_of_error hrun) (hput (hends.error e desk hrun))

/-! ## Runs -/

namespace Session

/-- What is asked of a session. -/
inductive Call where
  /-- It runs a line. -/
  | line (text : String)
  /-- It reads lines and runs them, to its end. -/
  | lines

/-- The session after a call, whether that succeeded or not. -/
def Call.after (settings : Settings) (setup : Setup) : Call → Session → Session
  | .line text, s => endOf (SessionM.inShell (runLine setup text) s)
  | .lines, s => endOf (repl settings setup s)

/-- **The commands that a call takes up,** each with the shell that it finds. -/
inductive Call.TakesUp (settings : Settings) (setup : Setup) :
    Call → Session → List String → Shell → Prop where
  | line {text : String} {s : Session} {words : List String} {p : Shell}
      (h : LineShell.TakesUp setup (commandsOf text) s.shell words p) :
      TakesUp settings setup (.line text) s words p
  | lines {s t read logged : Session} {before words : List String} {line : String} {p : Shell}
      (hbefore : Rounds settings setup s before t)
      (hread : readLine settings t = .ok (some line) read) (hline : line ≠ "")
      (hpersist : SessionM.atDesk (History.persist line) read = .ok ⟨⟩ logged)
      (h : LineShell.TakesUp setup (commandsOf line) logged.shell words p) :
      TakesUp settings setup .lines s words p

/-- The session at another terminal. -/
def atTerminal (s : Session) (screen : Screen) (keys : KeySource) : Session :=
  { s with shell := { s.shell with machine := { s.shell.machine with screen, keys } } }

/-- **The sessions that a session comes to:** it is put at some terminal, and calls are made whose
programs leave the directory at its place. -/
inductive Reached (settings : Settings) (setup : Setup) (s : Session) : Session → Prop where
  | refl : Reached settings setup s s
  | terminal {t : Session} (h : Reached settings setup s t) (screen : Screen) (keys : KeySource) :
      Reached settings setup s (t.atTerminal screen keys)
  | call {t : Session} (h : Reached settings setup s t) (call : Call)
      (hspares : ∀ words p, call.TakesUp settings setup t words p → Spares setup words p) :
      Reached settings setup s (call.after settings setup t)

variable {settings : Settings} {setup : Setup} {s t : Session} {lines : List String}

theorem inPlace_readLine (hs : s.shell.InPlace) :
    Ends (readLine settings) s (fun _ t => t.shell.InPlace) fun t => t.shell.InPlace :=
  ends_get_bind.2 (SessionM.inPlace_atDesk (Editor.sameBase_readLine _ _) hs)

theorem inPlace_logged {line : String} {read logged : Session} (hs : s.shell.InPlace)
    (hread : readLine settings s = .ok (some line) read)
    (hpersist : SessionM.atDesk (History.persist line) read = .ok ⟨⟩ logged) :
    logged.shell.InPlace :=
  (SessionM.inPlace_atDesk (History.sameBase_persist line)
    ((inPlace_readLine hs).ok _ _ hread)).ok _ _ hpersist

/-- **One round** leaves the two in agreement, however it ends. -/
theorem inPlace_round (hbuiltins : setup.builtins = Builtin.table) (hs : s.shell.InPlace)
    (hspares : ∀ words p, Call.lines.TakesUp settings setup s words p → Spares setup words p) :
    (endOf (round settings setup s)).shell.InPlace := by
  have hread := @inPlace_readLine settings s hs
  have hcases := round_cases settings setup s
  generalize round settings setup s = result at hcases
  cases hcases with
  | unread e v hunread => exact hread.error e v hunread
  | finished v hnone => exact hread.ok none v hnone
  | blank v hblank => exact hread.ok _ v hblank
  | unlogged line read e v hsome hline hpersist =>
    have hends := SessionM.inPlace_atDesk (History.sameBase_persist line) (hread.ok _ _ hsome)
    exact hends.error e v hpersist
  | broken line read logged cause shell hsome hline hpersist hrun =>
    have hran := inPlace_runLine hbuiltins line (inPlace_logged hs hsome hpersist) fun words p h =>
      hspares words p (.lines (.refl s) hsome hline hpersist h)
    rw [hrun] at hran
    exact hran
  | ran line read logged outcomes shell hsome hline hpersist hrun =>
    have hran := inPlace_runLine hbuiltins line (inPlace_logged hs hsome hpersist) fun words p h =>
      hspares words p (.lines (.refl s) hsome hline hpersist h)
    rw [hrun] at hran
    exact hran

theorem Rounds.inPlace (hbuiltins : setup.builtins = Builtin.table)
    (h : Rounds settings setup s lines t) (hs : s.shell.InPlace)
    (hspares : ∀ words p, Call.lines.TakesUp settings setup s words p → Spares setup words p) :
    t.shell.InPlace ∧
      ∀ words p, Call.lines.TakesUp settings setup t words p → Spares setup words p := by
  induction h with
  | refl s => exact ⟨hs, hspares⟩
  | head hread hround _ ih =>
    have hnext := inPlace_round hbuiltins hs hspares
    rw [hround] at hnext
    refine ih hnext fun words p htaken => ?_
    cases htaken with
    | lines hbefore hsome hline hpersist h =>
      exact hspares words p (.lines (.head hread hround hbefore) hsome hline hpersist h)

theorem inPlace_after (hbuiltins : setup.builtins = Builtin.table) (call : Call)
    (hs : s.shell.InPlace)
    (hspares : ∀ words p, call.TakesUp settings setup s words p → Spares setup words p) :
    (call.after settings setup s).shell.InPlace := by
  cases call with
  | line text =>
    show (endOf (SessionM.inShell (runLine setup text) s)).shell.InPlace
    rw [SessionM.endOf_inShell]
    exact inPlace_runLine hbuiltins text hs fun words p h => hspares words p (.line h)
  | lines =>
    have htable : QuietTable setup.builtins := by
      rw [hbuiltins]
      exact quietTable_builtins
    obtain ⟨before, t, hrounds, hlast⟩ := exists_last (shrinks_of_quiet settings htable) s
    obtain ⟨ht, hleft⟩ := hrounds.inPlace hbuiltins hs hspares
    show (endOf (repl settings setup s)).shell.InPlace
    rw [repl_eq_last (shrinks_of_quiet settings htable) hrounds hlast, endOf_closed]
    exact inPlace_round hbuiltins ht hleft

theorem Call.TakesUp.inPlace (hbuiltins : setup.builtins = Builtin.table) {call : Call}
    {words : List String} {p : Shell} (h : call.TakesUp settings setup s words p)
    (hs : s.shell.InPlace)
    (hspares : ∀ words p, call.TakesUp settings setup s words p → Spares setup words p) :
    p.InPlace := by
  cases h with
  | line h => exact h.inPlace hbuiltins hs fun words q hq => hspares words q (.line hq)
  | lines hbefore hsome hline hpersist h =>
    obtain ⟨ht, hleft⟩ := hbefore.inPlace hbuiltins hs hspares
    refine h.inPlace hbuiltins (inPlace_logged ht hsome hpersist) fun words q hq => ?_
    exact hleft words q (.lines (.refl _) hsome hline hpersist hq)

/-- **The machine is in the directory that the environment names,** in every session that was
started in a directory: after every call, and in the middle of a call before and after every command
that it takes up, whether the command succeeds or not. -/
theorem inPlace_of_reached (settings : Settings) (host : Host) {machine : Machine}
    {directory : Path} (vars : List (Bytes × Bytes)) (hdir : machine.currentDir = .ok directory)
    (h : Reached settings (setupOf settings host Builtin.table) (start settings machine vars) s) :
    s.shell.InPlace ∧ ∀ call : Call,
      (∀ words p, call.TakesUp settings (setupOf settings host Builtin.table) s words p →
        Spares (setupOf settings host Builtin.table) words p) →
      ∀ words p, call.TakesUp settings (setupOf settings host Builtin.table) s words p →
        p.InPlace ∧
          (endOf (dispatch (setupOf settings host Builtin.table) words p)).InPlace := by
  have hs : s.shell.InPlace := by
    induction h with
    | refl =>
      show machine.currentDir = .ok (machine.currentDir.toOption.getD Path.dot)
      rw [hdir]
      rfl
    | terminal _ screen keys ih => exact ih.of_same rfl rfl
    | call _ call hspares ih => exact inPlace_after rfl call ih hspares
  refine ⟨hs, fun call hspares words p htaken => ?_⟩
  have hp := htaken.inPlace rfl hs hspares
  exact ⟨hp, inPlace_dispatch rfl hp (hspares words p htaken)⟩

/-! ### A directory that is made and entered -/

/-- A new session in the root directory, next to a program. -/
def besideProgram : Session :=
  start {} (.boot (FileTree.empty.add (bytesOf "mkdir") [] (.file (Image.fileOf "mkdir") .all))) []

/-- The shell of that session when the program has made a directory. -/
def made : Shell :=
  endOf (dispatch (setupOf {} Standard.host Builtin.table) ["/mkdir", "d"] besideProgram.shell)

theorem spares_besideProgram :
    Spares (setupOf {} Standard.host Builtin.table) ["/mkdir", "d"] besideProgram.shell := by
  intro launch report hlaunches hrun
  have hlaunched : made.machine.launches
      = [⟨bytesOf "/mkdir", ["/mkdir", "d"], .ofList [], bytesOf "/"⟩] := by
    decide +kernel
  obtain ⟨rfl, -⟩ := List.cons.inj (hlaunches.symm.trans hlaunched)
  have hleft : (Standard.host.run besideProgram.shell.machine.surroundings
      ⟨bytesOf "/mkdir", ["/mkdir", "d"], .ofList [], bytesOf "/"⟩).map
        (fun report => report.files.placeOf [] FileTree.rootNumber)
          = some besideProgram.shell.machine.base := by
    decide +kernel
  have hreport := (congrArg (Option.map _) hrun).symm.trans hleft
  exact Option.some.inj hreport

theorem takesUp_besideProgram {words : List String} {p : Shell} :
    TakesUp (setupOf {} Standard.host Builtin.table) (commandsOf "/mkdir d; cd d")
      besideProgram.shell words p ↔
    words = ["/mkdir", "d"] ∧ p = besideProgram.shell ∨ words = ["cd", "d"] ∧ p = made := by
  have hcommands : commandsOf "/mkdir d; cd d" = ["/mkdir d", " cd d"] := by decide +kernel
  have hmkdir : wordsOf "/mkdir d" = ["/mkdir", "d"] := by decide +kernel
  have hcd : wordsOf " cd d" = ["cd", "d"] := by decide +kernel
  have hdone : (dispatch (setupOf {} Standard.host Builtin.table) ["/mkdir", "d"]).run'
      besideProgram.shell = some (.external 0) := by
    decide +kernel
  have hmade := eq_ok_of_run' hdone
  rw [hcommands, ← hcd, ← hmkdir]
  rw [← hmkdir] at hmade
  constructor
  · intro h
    cases h with
    | head => exact .inl ⟨rfl, rfl⟩
    | tail hfirst _ h =>
      rw [hmade] at hfirst
      cases hfirst
      cases h with
      | head => exact .inr ⟨rfl, by rw [hmkdir]; rfl⟩
      | tail _ _ h => cases h
  · rintro (⟨rfl, rfl⟩ | ⟨rfl, rfl⟩)
    · exact .head _ _ _
    · refine .tail hmade rfl ?_
      rw [hmkdir]
      exact .head _ _ _

/-- The directory is made by a program, and entered by `cd`. -/
theorem inPlace_of_reached_made :
    ((Call.line "/mkdir d; cd d").after {} (setupOf {} Standard.host Builtin.table)
      besideProgram).shell.InPlace ∧
    made.InPlace ∧
    (endOf (dispatch (setupOf {} Standard.host Builtin.table) ["cd", "d"] made)).InPlace := by
  have hspares : ∀ words p, (Call.line "/mkdir d; cd d").TakesUp {}
      (setupOf {} Standard.host Builtin.table) besideProgram words p →
        Spares (setupOf {} Standard.host Builtin.table) words p := by
    rintro words p (⟨h⟩ | _)
    rcases takesUp_besideProgram.1 h with ⟨rfl, rfl⟩ | ⟨rfl, rfl⟩
    · exact spares_besideProgram
    · have hcalled : Dispatch.called? made ["cd", "d"] = some (.cd, ["d"]) := by decide +kernel
      exact spares_of_called rfl hcalled
  have hdir : Machine.currentDir (.boot (FileTree.empty.add (bytesOf "mkdir") []
      (.file (Image.fileOf "mkdir") .all))) = .ok (bytesOf "/") := rfl
  have hstart := inPlace_of_reached {} Standard.host [] hdir .refl
  have hafter := inPlace_of_reached {} Standard.host [] hdir (.call .refl _ hspares)
  exact ⟨hafter.1, hstart.2 _ hspares _ _ (.line (takesUp_besideProgram.2 (.inr ⟨rfl, rfl⟩)))⟩

end Session

end LineShell
