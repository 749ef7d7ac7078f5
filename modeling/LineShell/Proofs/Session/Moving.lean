import LineShell.Proofs.Files.Appending
import LineShell.Proofs.Session.ChangingDirectory
/-!
A session moves, or it stays as it was.

Between commands anything may happen to the files and at the terminal, but nobody else takes a
session to another directory. Of the commands only `cd` does, and it leads to a path from the root.
So in every session that was started in a directory, each path that `cd` asks for is one from the
root (`Shell.Comes.isAbsolute`), and `cd` goes where its target leads or does nothing but say why
not (`Session.changeDir_or_nothing`). That holds of the way back, too: a directory that was left and
still stands may have become one that cannot be entered, or may be too deep for its path to be taken
(`Session.Barred`).
-/

set_option autoImplicit false

namespace LineShell

/-! ## The shells that a shell comes to -/

/-- **The shells that a shell comes to.** Commands are run, whether they succeed or not; in between,
lines are read and logged, and others do what they like with the files and at the terminal. -/
inductive Shell.Comes (setup : Setup) (p : Shell) : Shell → Prop where
  | refl : Comes setup p p
  | meanwhile {q r : Shell} (h : Comes setup p q) (henvironment : r.environment = q.environment)
      (hworkDir : r.machine.workDir = q.machine.workDir) : Comes setup p r
  | command {q : Shell} (h : Comes setup p q) (words : List String) :
      Comes setup p (endOf (dispatch setup words q))

section

variable {setup : Setup} {p q r : Shell}

theorem Shell.Comes.trans (h : p.Comes setup q) (h' : q.Comes setup r) : p.Comes setup r := by
  induction h' with
  | refl => exact h
  | meanwhile _ henvironment hworkDir ih => exact ih.meanwhile henvironment hworkDir
  | command _ words ih => exact ih.command words

instance : IsPreorder Shell (Shell.Comes setup) where
  refl _ := .refl
  trans _ _ _ := Shell.Comes.trans

theorem comes_dispatch (words : List String) :
    Keeps (Shell.Comes setup) (dispatch setup words) :=
  fun _ => ends_of_endOf (.command .refl words)

theorem comes_runCommands (commands : List String) :
    Keeps (Shell.Comes setup) (runCommands setup commands) := by
  induction commands with
  | nil => exact Keeps.pure []
  | cons command rest ih =>
    refine (comes_dispatch (wordsOf command)).bind fun outcome => ?_
    exact (Keeps.pure [outcome]).ite (ih.bind fun outcomes => Keeps.pure (outcome :: outcomes))

theorem comes_runLine (line : String) : Keeps (Shell.Comes setup) (runLine setup line) := by
  have hflush : Keeps (Shell.Comes setup) (ShellM.onMachine Effect.flush) := fun p => by
    refine (ShellM.calm_onMachine Effect.calm_flush p).mono (fun _ q h => ?_) fun q h => ?_
    · exact .meanwhile .refl h.environment h.workDir
    · exact .meanwhile .refl h.environment h.workDir
  exact (comes_runCommands _).bind fun outcomes => hflush.bind fun _ => Keeps.pure outcomes

end

/-! ### Sessions -/

/-- The machine at a desk stays in its directory. -/
def Desk.Stays (before after : Desk) : Prop := after.machine.workDir = before.machine.workDir

instance : IsPreorder Desk Desk.Stays where
  refl _ := rfl
  trans _ _ _ h h' := Eq.trans h' h

theorem Editor.stays_readLine (maxLength : Nat) (prompt : String) :
    Keeps Desk.Stays (readLine maxLength prompt) := fun desk =>
  (calm_readLine maxLength prompt desk).mono (fun _ _ h => h.1.place.workDir)
    fun _ h => h.place.workDir

theorem DeskM.stays_onMachine {α : Type} {effect : Effect α} {fault : Cause → SessionError}
    (h : ∀ m, Ends effect m (fun _ n => n.workDir = m.workDir) fun n => n.workDir = m.workDir) :
    Keeps Desk.Stays (onMachine fault effect) := fun desk =>
  (ends_onMachine (h desk.machine)).mono (fun _ _ h => h.1) fun _ h => h.1

theorem Effect.stays_openFile (path : Path) (m : Machine) : Ends (openFile path) m
    (fun _ n => n.workDir = m.workDir) fun n => n.workDir = m.workDir := by
  cases hopen : m.files.openFile m.base path .plain with
  | error cause => exact ends_of_error (History.openFile_of_error hopen) rfl
  | ok opened => exact ends_of_ok (History.openFile_of_ok hopen) rfl

theorem Effect.stays_append (place : Place) (bytes : Bytes) (m : Machine) :
    Ends (append place bytes) m (fun _ n => n.workDir = m.workDir)
      fun n => n.workDir = m.workDir := by
  unfold append
  refine ends_get_bind.2 ?_
  cases m.files.isFullAt place with
  | true => exact ends_of_error rfl rfl
  | false => exact ends_of_ok rfl rfl

theorem History.stays_persist (line : String) : Keeps Desk.Stays (persist line) :=
  keeps_persist (fun _ path => DeskM.stays_onMachine (Effect.stays_openFile path))
    (fun _ place bytes => DeskM.stays_onMachine (Effect.stays_append place bytes)) line

namespace Session

variable {settings : Settings} {setup : Setup}

/-- A session whose shell comes to that of another. -/
def Comes (setup : Setup) (s t : Session) : Prop := s.shell.Comes setup t.shell

instance : IsPreorder Session (Comes setup) where
  refl _ := Shell.Comes.refl
  trans _ _ _ := Shell.Comes.trans

theorem comes_atDesk {α : Type} {action : DeskM α} (h : Keeps Desk.Stays action) :
    Keeps (Comes setup) (SessionM.atDesk action) := by
  intro s
  have hends := h s.desk
  cases hrun : action s.desk with
  | ok a desk =>
    exact ends_of_ok (SessionM.atDesk_of_ok hrun) (.meanwhile .refl rfl (hends.ok a desk hrun))
  | error e desk =>
    exact ends_of_error (SessionM.atDesk_of_error hrun)
      (.meanwhile .refl rfl (hends.error e desk hrun))

theorem comes_runLine (line : String) :
    Keeps (Comes setup) (SessionM.inShell (runLine setup line)) := by
  refine fun s => ends_of_endOf ?_
  rw [SessionM.endOf_inShell]
  exact (LineShell.comes_runLine line s.shell).endOf

theorem comes_advance (stage : Stage) : Keeps (Comes setup) (advance settings setup stage) := by
  cases stage with
  | reading =>
    have hread : Keeps (Comes setup) (readLine settings) :=
      Keeps.get_bind fun s => comes_atDesk (Editor.stays_readLine _ _)
    refine hread.bind fun line => ?_
    cases line with
    | none => exact Keeps.pure Stage.over
    | some line => exact Keeps.pure _
  | logging line =>
    exact (comes_atDesk (History.stays_persist line)).bind fun _ => Keeps.pure (Stage.running line)
  | running line => exact (comes_runLine line).bind fun outcomes => Keeps.pure _
  | _ => exact Keeps.pure Stage.over

theorem comes_round : Keeps (Comes setup) (round settings setup) := by
  refine (comes_advance .reading).bind fun stage => ?_
  cases stage with
  | logging line => exact (comes_advance (.logging line)).bind comes_advance
  | _ => exact Keeps.pure _

theorem comes_replWithin (reads : Nat) :
    Keeps (Comes setup) (replWithin settings setup reads) := by
  induction reads with
  | zero => exact Keeps.pure false
  | succ reads ih => exact comes_round.bind fun stage => (Keeps.pure true).ite ih

theorem comes_after (call : Call) (s : Session) : s.Comes setup (call.after settings setup s) := by
  cases call with
  | line text => exact (comes_runLine text s).endOf
  | lines =>
    have hrepl : Keeps (Comes setup) (repl settings setup) :=
      Keeps.get_bind fun _ => (comes_replWithin _).bind fun _ => Keeps.pure ()
    exact (hrepl s).endOf

/-- **Every session that is reached** by calls is one that the session comes to. -/
theorem Reached.comes {s t : Session} (h : Reached settings setup s t) : s.Comes setup t := by
  induction h with
  | refl => exact .refl
  | terminal _ screen keys ih => exact ih.meanwhile rfl rfl
  | call _ call _ ih => exact ih.trans (comes_after call _)

end Session

/-! ## Paths from the root -/

section

variable {setup : Setup} {p q : Shell}

theorem FileTree.isAbsolute_of_canonical {tree : FileTree} {base : Option Place}
    {path resolved : Path} (h : tree.canonical base path = .ok resolved) :
    resolved.isAbsolute = true := by
  obtain ⟨start, -, h⟩ := except_bind_eq_ok.1 h
  obtain ⟨place, -, h⟩ := except_bind_eq_ok.1 h
  cases h
  exact Place.isAbsolute_path place

/-- **One command** leaves a path from the root where it finds one. -/
theorem isAbsolute_dispatch (hbuiltins : setup.builtins = Builtin.table) (words : List String)
    (hp : p.environment.currentDir.isAbsolute = true) :
    (endOf (dispatch setup words p)).environment.currentDir.isAbsolute = true := by
  have hstanding := (follows_dispatch hbuiltins words p).standing
  have henvironment : (endOf (dispatch setup words p)).environment = _ :=
    congrArg Prod.fst hstanding
  rw [henvironment]
  -- A command that leaves another path is a `cd` that succeeded.
  by_cases hstays : (Dispatch.changes p words).1.currentDir = p.environment.currentDir
  · rwa [hstays]
  · obtain ⟨moved, hmoves⟩ := Dispatch.directory_changes (.inl hstays)
    obtain ⟨target, -, hmove⟩ := id hmoves
    obtain ⟨_, resolved, _, -, hresolved, -, -, hmoved⟩ := Builtin.exists_of_changeDir hmove
    rw [Dispatch.changes_of_moves hmoves, Shell.standing, hmoved]
    exact FileTree.isAbsolute_of_canonical hresolved

theorem Shell.Comes.isAbsolute (hbuiltins : setup.builtins = Builtin.table)
    (h : p.Comes setup q) (hp : p.environment.currentDir.isAbsolute = true) :
    q.environment.currentDir.isAbsolute = true := by
  induction h with
  | refl => exact hp
  | meanwhile _ henvironment _ ih => rwa [henvironment]
  | command _ words ih => exact isAbsolute_dispatch hbuiltins words ih

end

namespace Session

variable {p : Shell}

theorem anchored_of_comes (settings : Settings) (host : Host) {machine : Machine}
    (vars : List (Bytes × Bytes))
    (hcomes : (start settings machine vars).shell.Comes (setupOf settings host Builtin.table) p)
    (hgone : machine.base = none → ∀ place, p.machine.base = some place → Place.Proper place) :
    p.Anchored := by
  cases hbase : machine.base with
  | none => exact .inr (hgone hbase)
  | some place =>
    have hdirectory : (start settings machine vars).shell.environment.currentDir
        = Place.path place := by
      show machine.currentDir.toOption.getD Path.dot = _
      rw [Machine.currentDir, hbase]
      rfl
    refine .inl (hcomes.isAbsolute rfl ?_)
    rw [hdirectory]
    exact Place.isAbsolute_path place

/-- **A session moves, or it stays as it was.** In every session and for every target, `cd` either
has status zero, and the machine and the environment are in the canonical path of the directory that
was asked for, with two variables that tell where the shell is and where it was, and all others as
they were. Behind that, if the paths of both are text, `cd -` goes back and forth between the two
directories for as long as they can be entered by their paths, and not a step further. Or the target
leads to no directory that can be entered; then `cd` writes a message and has status one, and
nothing else happens.

A session that was started without a directory looks relative paths up from a directory that it
cannot tell. Should there be one after all, it has to be one that a path can lead to. -/
theorem changeDir_or_nothing (settings : Settings) (host : Host) {machine : Machine}
    (vars : List (Bytes × Bytes)) (target : Option String)
    (hcomes : (start settings machine vars).shell.Comes (setupOf settings host Builtin.table) p)
    (hgone : machine.base = none → ∀ place, p.machine.base = some place → Place.Proper place)
    (hscreen : p.machine.screen.NeverFails) :
    (∃ b q, b.Fit ∧ Builtin.Leads target p (Place.path b) ∧
      Builtin.run (.changeDir target) p = .ok 0 q ∧ p.Moved (Place.path b) q ∧
      ∀ a : Place, p.environment.currentDir = Place.path a → Place.Proper a →
        (∃ text, bytesOf text = Place.path a) → (∃ text, bytesOf text = Place.path b) →
          Builtin.GoesBackAndForth a b q) ∨
    (¬ ∃ resolved, Builtin.Leads target p resolved) ∧ ∃ failure,
      Builtin.changeDir target p = .error failure ∧
      Builtin.run (.changeDir target) p
        = .ok 1 { p with machine := p.machine.wrote (failure.message ++ "\n") } := by
  have hanchored := anchored_of_comes settings host vars hcomes hgone
  by_cases hleads : ∃ resolved, Builtin.Leads target p resolved
  · obtain ⟨resolved, hleads⟩ := hleads
    obtain ⟨b, q, hfit, rfl, hrun, hmoved⟩ := Builtin.run_of_leads hanchored hleads
    refine .inl ⟨b, q, hfit, hleads, hrun, hmoved, fun a hdirectory hproper htext htext' => ?_⟩
    exact (Builtin.Between.of_moved hmoved hdirectory).goesBackAndForth hproper htext hfit.proper
      htext' (hmoved.screen ▸ hscreen)
  · exact .inr ⟨hleads, Builtin.run_of_not_leads hscreen hleads⟩

/-! ### A directory behind a link -/

/-- A directory `d` and a link to it. -/
def linkedFiles : FileTree :=
  (FileTree.empty.addDir (bytesOf "d") [] .all).add (bytesOf "l") [] (.link (bytesOf "d"))

theorem leads_linkedFiles : Builtin.Leads (some "l") (start {} (.boot linkedFiles) []).shell
    (Place.path [bytesOf "d"]) := by
  have hlink : linkedFiles.node? [bytesOf "l"] = some (.link (bytesOf "d")) := by decide +kernel
  have hdir : linkedFiles.node? [bytesOf "d"] = some (.dir 1 .all) := by decide +kernel
  have hresolve : linkedFiles.resolve FileTree.maxLinks [] [bytesOf "l"] = .ok [bytesOf "d"] := by
    rw [FileTree.resolve, if_neg (by decide +kernel), if_neg (by decide +kernel),
      if_neg (by decide +kernel), if_neg (by decide +kernel), if_neg (by decide +kernel),
      if_neg (by decide +kernel), hlink]
    show linkedFiles.resolve 39 [] [bytesOf "d"] = _
    rw [FileTree.resolve, if_neg (by decide +kernel), if_neg (by decide +kernel),
      if_neg (by decide +kernel), if_neg (by decide +kernel), if_neg (by decide +kernel),
      if_neg (by decide +kernel), hdir]
    show linkedFiles.resolve 39 [bytesOf "d"] [] = _
    rw [FileTree.resolve]
  refine ⟨⟨bytesOf "/l", by decide +kernel, ?_⟩, ⟨[bytesOf "d"], 1⟩, by decide +kernel⟩
  show (do return (← linkedFiles.resolve FileTree.maxLinks [] [bytesOf "l"]).path) = _
  rw [hresolve]
  rfl

theorem proper_d : Place.Proper [bytesOf "d"] := by decide +kernel

/-- The link leads to the directory. From there `cd -` leads back to the root, to the directory and
to the root again, also once the link is removed. -/
theorem changeDir_or_nothing_linked : ∃ q r,
    Builtin.run (.changeDir (some "l")) (start {} (.boot linkedFiles) []).shell = .ok 0 q ∧
      q.machine.currentDir = .ok (bytesOf "/d") ∧
      q.environment.get? "OLDPWD" = some "/" ∧
      [linkedFiles, linkedFiles.prune [bytesOf "l"], linkedFiles].mapM Builtin.back q
        = .ok [0, 0, 0] r ∧
      r.machine.currentDir = .ok (bytesOf "/") := by
  have hgone : Machine.base (.boot linkedFiles) ≠ none := by decide +kernel
  have hadmits : ∀ tree ∈ [linkedFiles, linkedFiles.prune [bytesOf "l"], linkedFiles],
      tree.Admits [] ∧ tree.Admits [bytesOf "d"] := by
    decide +kernel
  have hcases := changeDir_or_nothing {} Standard.host [] (some "l")
    (@Shell.Comes.refl _ (start {} (.boot linkedFiles) []).shell)
    (fun hnone => absurd hnone hgone) Screen.neverFails_unlimited
  rcases hcases with ⟨b, q, hfit, hleads, hrun, hmoved, hback⟩ | ⟨hnot, -⟩
  · obtain rfl : [bytesOf "d"] = b :=
      Place.path_inj proper_d hfit.proper (leads_linkedFiles.unique hleads)
    obtain ⟨r, hreturns, hdirectory, hprocess, -⟩ :=
      hback [] rfl Place.fit_nil.proper ⟨"/", rfl⟩ ⟨"/d", rfl⟩ _ hadmits
    refine ⟨q, r, hrun, hmoved.process, ?_, hreturns, ?_⟩
    · rw [hmoved.previous]
      exact congrArg some (stringOf_bytesOf "/")
    · rw [hprocess, hdirectory]
      rfl
  · exact absurd ⟨_, leads_linkedFiles⟩ hnot

/-! ### Directories that stand and are not come back to -/

/-- **A session that is barred from where it was started,** with the files as they are later: the
directory stands then, and its path is text; `cd /` has left it, and `cd -` does nothing but write
why it fails. -/
def Barred (machine : Machine) (a : Place) (files : FileTree) : Prop :=
  machine.currentDir = .ok (Place.path a) ∧ (∃ text, bytesOf text = Place.path a) ∧
  files.isDirAt a = true ∧ files.isDirAt [] = true ∧
  ∃ q failure, Builtin.run (.changeDir (some "/")) (start {} machine []).shell = .ok 0 q ∧
    Builtin.changeDir (some "-") (q.amid files) = .error failure ∧
    Builtin.back files q = .ok 1 { q.amid files with
      machine := (q.amid files).machine.wrote (failure.message ++ "\n") }

theorem barred_of_not_admits {machine : Machine} {a : Place} {files : FileTree}
    (hbase : machine.base = some a) (hroot : machine.files.root.pass = true)
    (hscreen : machine.screen.NeverFails) (hproper : Place.Proper a)
    (htext : ∃ text, bytesOf text = Place.path a) (hstands : files.isDirAt a = true)
    (hbarred : ¬ files.Admits a) : Barred machine a files := by
  have hprocess : machine.currentDir = .ok (Place.path a) := by
    rw [Machine.currentDir, hbase]
  have hdirectory : (start {} machine []).shell.environment.currentDir = Place.path a := by
    show machine.currentDir.toOption.getD Path.dot = _
    rw [hprocess]
    rfl
  have hadmits : machine.files.Admits [] := by
    refine ⟨Place.fit_nil, rfl, fun above hsuffix => ?_⟩
    rw [List.suffix_nil.1 hsuffix]
    exact hroot
  have hleads : Builtin.Leads (some "/") (start {} machine []).shell (Place.path []) := by
    refine ⟨⟨bytesOf "/", ?_, hadmits.canonical _⟩, hadmits.exists_workDirOf _⟩
    exact congrArg Except.ok (Path.join_of_absolute _ rfl)
  obtain ⟨q, hrun, hmoved⟩ := Builtin.moved_of_leads FileTree.straight_nil hleads
  have hreturns := (Builtin.Between.of_moved hmoved hdirectory).returnsTo hproper htext
    (hmoved.screen ▸ hscreen) hstands
  obtain ⟨failure, hfails, hback⟩ := (hreturns.resolve_left fun h => hbarred h.1).2
  exact ⟨hprocess, htext, hstands, rfl, q, failure, hrun, hfails, hback⟩

/-- Directories named `d` in one another. -/
def nestedFiles : Nat → FileTree
  | 0 => .empty
  | depth + 1 =>
    (nestedFiles depth).addDir (bytesOf "d") (List.replicate depth (bytesOf "d")) .all

theorem fresh_nestedFiles (depth : Nat) : (nestedFiles depth).fresh = depth + 1 := by
  induction depth with
  | zero => rfl
  | succ depth ih =>
    show (nestedFiles depth).fresh + 1 = _
    rw [ih]

theorem node?_nestedFiles (depth k : Nat) :
    (nestedFiles depth).node? (List.replicate k (bytesOf "d"))
      = if k ≤ depth then some (.dir k .all) else none := by
  induction depth generalizing k with
  | zero =>
    cases k with
    | zero => rfl
    | succ k => rfl
  | succ depth ih =>
    have hdir : (nestedFiles depth).isDirAt (List.replicate depth (bytesOf "d")) = true := by
      rw [FileTree.isDirAt, ih, if_pos (Nat.le_refl depth)]
      rfl
    have hfree : (nestedFiles depth).node? (bytesOf "d" :: List.replicate depth (bytesOf "d"))
        = none := by
      rw [← List.replicate_succ, ih, if_neg (by omega)]
    rw [nestedFiles, FileTree.node?_addDir .all hdir hfree, fresh_nestedFiles, ih,
      ← List.replicate_succ]
    by_cases hlast : k = depth + 1
    · rw [hlast, if_pos rfl, if_pos (Nat.le_refl _)]
    · have hother : List.replicate k (bytesOf "d") ≠ List.replicate (depth + 1) (bytesOf "d") :=
        fun hsame => hlast (by simpa using congrArg List.length hsame)
      rw [if_neg hother]
      by_cases habove : k ≤ depth
      · rw [if_pos habove, if_pos (by omega)]
      · rw [if_neg habove, if_neg (by omega)]

/-- Deep down no path leads to where one is. -/
theorem barred_nestedFiles {depth : Nat} (hdeep : FileTree.maxPathLength < 2 * depth) :
    let place := List.replicate depth (bytesOf "d")
    Barred { Machine.boot (nestedFiles depth) with workDir := ⟨place, depth⟩ } place
      (nestedFiles depth) := by
  intro place
  have hnode : (nestedFiles depth).node? place = some (.dir depth .all) := by
    rw [node?_nestedFiles, if_pos (Nat.le_refl depth)]
  have hname : ∀ name ∈ place, name = bytesOf "d" := fun name hmem => List.eq_of_mem_replicate hmem
  refine barred_of_not_admits ?_ ?_ Screen.neverFails_unlimited ?_ ?_ ?_ ?_
  · show (nestedFiles depth).placeOf place depth = some place
    rw [FileTree.placeOf, FileTree.isNumberAt, hnode]
    exact if_pos (beq_self_eq_true depth)
  · have hroot := node?_nestedFiles depth 0
    rw [if_pos (Nat.zero_le depth)] at hroot
    obtain ⟨-, hrights⟩ := Node.dir.inj (Option.some.inj hroot)
    show (nestedFiles depth).root.pass = true
    rw [hrights]
    rfl
  · intro name hmem
    rw [hname name hmem]
    exact proper_d _ List.mem_cons_self
  · exact Place.exists_bytesOf_path fun name hmem => ⟨"d", (hname name hmem).symm⟩
  · rw [FileTree.isDirAt, hnode]
    rfl
  · intro hadmits
    have hne : place ≠ [] := fun hnil => by
      have hzero : depth = 0 := by simpa [place] using hnil
      omega
    have hlength : (Place.path place).length = 2 * depth := by
      rw [Place.path_of_ne_nil hne, List.length_flatMap, List.reverse_replicate,
        List.map_replicate, List.sum_replicate_nat, Nat.mul_comm]
      rfl
    exact absurd hadmits.fit.length (by omega)

/-- **To stand is not enough.** Nobody comes back by a path that is longer than others may be, nor
through a directory that may no longer be gone through. -/
theorem barred_by_length_or_rights :
    Barred { Machine.boot (nestedFiles 2048) with
        workDir := ⟨List.replicate 2048 (bytesOf "d"), 2048⟩ }
      (List.replicate 2048 (bytesOf "d")) (nestedFiles 2048) ∧
    Barred { Machine.boot linkedFiles with workDir := ⟨[bytesOf "d"], 1⟩ } [bytesOf "d"]
      (linkedFiles.setRights [bytesOf "d"] .plain) := by
  exact ⟨barred_nestedFiles (by decide), barred_of_not_admits (by decide +kernel) rfl
    Screen.neverFails_unlimited proper_d ⟨"/d", rfl⟩ (by decide +kernel)
    (by decide +kernel)⟩

end Session

end LineShell
