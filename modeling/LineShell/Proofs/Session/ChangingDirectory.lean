import LineShell.Proofs.Files.Returning
import LineShell.Proofs.Session.InPlace
/-!
What `cd` does, and what `cd -` does behind it.

Whether `cd` succeeds is settled before anything is changed: its target has to lead to a directory
that can be entered by its canonical path (`Builtin.Leads`). If it does, the shell moves there
(`Builtin.run_of_leads`); if it does not, all that happens is that a message is written
(`Builtin.run_of_not_leads`). Behind a move the variable `OLDPWD` holds the path that was left, and
that path is its own canonical path for as long as its directory is open. So `cd -` changes the two
directories over, each time that it is run (`Builtin.Between.goesBackAndForth`). A directory that
stands, but that may not be gone through or has a path that is too long, is not come back to
(`Builtin.Between.returnsTo`).
-/

set_option autoImplicit false

namespace LineShell

theorem stringOf_bytesOf (text : String) : stringOf (bytesOf text) = text := by
  rw [stringOf, bytesOf, Utf8.decodeLossy_encode, String.ofList_toList]

/-! ## Moves -/

/-- **A shell that has moved to a path.** Nothing of the machine has changed but its directory, and
of the variables only the two that tell where the shell is and where it was. -/
structure Shell.Moved (p : Shell) (resolved : Path) (q : Shell) : Prop where
  process : q.machine.currentDir = .ok resolved
  machine : ∃ dir, q.machine = { p.machine with workDir := dir }
  directory : q.environment.currentDir = resolved
  previous : q.environment.get? "OLDPWD" = some (stringOf p.environment.currentDir)
  present : q.environment.get? "PWD" = some (stringOf resolved)
  others : ∀ name, name ≠ "OLDPWD" → name ≠ "PWD" →
    q.environment.get? name = p.environment.get? name
  shouldExit : q.environment.shouldExit = p.environment.shouldExit

/-- A move prints nothing. -/
theorem Shell.Moved.screen {p q : Shell} {resolved : Path} (h : p.Moved resolved q) :
    q.machine.screen = p.machine.screen := by
  obtain ⟨dir, hmachine⟩ := h.machine
  rw [hmachine]

/-- A shell with other files than those that were there before. -/
def Shell.amid (p : Shell) (files : FileTree) : Shell :=
  { p with machine := { p.machine with files } }

/-- The path of a place whose names are text is text. -/
theorem Place.exists_bytesOf_path {place : Place}
    (h : ∀ name ∈ place, ∃ text, bytesOf text = name) :
    ∃ text, bytesOf text = Place.path place := by
  have hnames : ∀ names : List Name, (∀ name ∈ names, ∃ text, bytesOf text = name) →
      ∃ text, bytesOf text = names.flatMap (Path.slash :: ·) := by
    intro names h
    induction names with
    | nil => exact ⟨"", rfl⟩
    | cons name rest ih =>
      obtain ⟨⟨first, hfirst⟩, hrest⟩ := List.forall_mem_cons.1 h
      obtain ⟨second, hsecond⟩ := ih hrest
      refine ⟨"/" ++ first ++ second, ?_⟩
      rw [bytesOf_append, bytesOf_append, hfirst, hsecond, List.flatMap_cons]
      rfl
  by_cases hnil : place = []
  · rw [hnil]
    exact ⟨"/", rfl⟩
  · rw [path_of_ne_nil hnil]
    exact hnames _ fun name hmem => h name (List.mem_reverse.1 hmem)

/-- A place whose path a variable can hold. -/
structure Place.Tellable (place : Place) : Prop where
  fit : place.Fit
  text : ∃ text, bytesOf text = Place.path place

/-- **A shell whose paths lead to proper names:** none of them is relative, or the place that such a
path is looked up from is made of proper names. -/
def Shell.Anchored (p : Shell) : Prop :=
  p.environment.currentDir.isAbsolute = true ∨
    ∀ place, p.machine.base = some place → Place.Proper place

namespace Builtin

variable {target : Option String} {p q : Shell} {resolved : Path} {a b : Place}

/-- **Where a target leads:** to the canonical path of the directory that it asks for, if that can
be entered. -/
structure Leads (target : Option String) (p : Shell) (resolved : Path) : Prop where
  found : ∃ requested, destination p.environment target = .ok requested ∧
    p.machine.files.canonical p.machine.base requested = .ok resolved
  enters : ∃ dir, p.machine.files.workDirOf p.machine.base resolved = .ok dir

/-- A target leads to one path. -/
theorem Leads.unique {resolved' : Path} (h : Leads target p resolved)
    (h' : Leads target p resolved') : resolved = resolved' := by
  obtain ⟨requested, hrequested, hresolved⟩ := h.found
  obtain ⟨requested', hrequested', hresolved'⟩ := h'.found
  rw [hrequested] at hrequested'
  cases hrequested'
  rw [hresolved] at hresolved'
  cases hresolved'
  rfl

theorem Leads.changeDir (h : Leads target p resolved) : ∃ dir,
    p.machine.files.workDirOf p.machine.base resolved = .ok dir ∧
      changeDir target p = .ok ⟨{ p.machine with workDir := dir },
        ({ p.environment with currentDir := resolved }.set "OLDPWD"
          (stringOf p.environment.currentDir)).set "PWD" (stringOf resolved)⟩ := by
  obtain ⟨⟨requested, hrequested, hresolved⟩, dir, hdir⟩ := h
  have hisDir : ¬ (!p.machine.files.isDir p.machine.base resolved) = true := by
    rw [FileTree.isDir_of_workDirOf hdir]
    decide
  -- A directory that can be entered passes the check for one.
  refine ⟨dir, hdir, ?_⟩
  rw [changeDir_eq, moveOf, hrequested, except_ok_bind, hresolved]
  dsimp only [Except.mapError]
  rw [except_ok_bind, if_neg hisDir, hdir]
  rfl

/-- A `cd` succeeds exactly if its target leads somewhere. -/
theorem leads_of_changeDir (h : Builtin.changeDir target p = .ok q) :
    ∃ resolved, Leads target p resolved := by
  obtain ⟨requested, resolved, dir, hrequested, hresolved, hdir, -, -⟩ := exists_of_changeDir h
  exact ⟨resolved, ⟨requested, hrequested, hresolved⟩, dir, hdir⟩

theorem run_of_changeDir (h : Builtin.changeDir target p = .ok q) :
    run (.changeDir target) p = .ok 0 q := by
  have hperform : perform (.changeDir target) p = .ok 0 q := by
    unfold perform
    dsimp only
    rw [get_bind, h]
    rfl
  exact run_of_ok hperform

theorem moved_of_leads {place : Place} (hstraight : p.machine.files.Straight place)
    (h : Leads target p (Place.path place)) :
    ∃ q, run (.changeDir target) p = .ok 0 q ∧ p.Moved (Place.path place) q := by
  obtain ⟨dir, hdir, hmove⟩ := h.changeDir
  have hprocess : p.machine.files.placeOf dir.place dir.number = some place :=
    FileTree.placeOf_of_workDirOf hstraight hdir
  refine ⟨_, run_of_changeDir hmove, ?_⟩
  exact
    { process := Machine.currentDir_eq_ok.2 ⟨place, hprocess, rfl⟩
      machine := ⟨dir, rfl⟩
      directory := rfl
      previous := by
        rw [Environment.get?_set, if_neg (by decide), Environment.get?_set, if_pos rfl]
      present := by rw [Environment.get?_set, if_pos rfl]
      others := fun name hold hnew => by
        rw [Environment.get?_set, if_neg hnew, Environment.get?_set, if_neg hold]
        rfl
      shouldExit := rfl }

/-- **Where its target leads, `cd` goes.** It is the path of a place that fits into it. -/
theorem run_of_leads (hanchored : p.Anchored) (h : Leads target p resolved) :
    ∃ place q, place.Fit ∧ resolved = Place.path place ∧
      run (.changeDir target) p = .ok 0 q ∧ p.Moved resolved q := by
  obtain ⟨requested, hrequested, hresolved⟩ := h.found
  obtain ⟨place, hstraight, rfl⟩ : ∃ place, p.machine.files.Straight place ∧
      resolved = Place.path place := by
    refine FileTree.exists_of_canonical_from (hanchored.imp (fun habsolute => ?_) ?_) hresolved
    · exact isAbsolute_destination habsolute hrequested
    · intro hproper place hbase
      exact FileTree.straight_of_placeOf (hproper place hbase) hbase
  obtain ⟨dir, hdir⟩ := h.enters
  obtain ⟨q, hrun, hmoved⟩ := moved_of_leads hstraight h
  exact ⟨place, q, (FileTree.admits_of_workDirOf hstraight hdir).fit, rfl, hrun, hmoved⟩

/-- **A target that leads nowhere** is reported, and nothing else happens. -/
theorem run_of_not_leads (hscreen : p.machine.screen.NeverFails)
    (h : ¬ ∃ resolved, Leads target p resolved) : ∃ failure,
    Builtin.changeDir target p = .error failure ∧
      run (.changeDir target) p
        = .ok 1 { p with machine := p.machine.wrote (failure.message ++ "\n") } := by
  cases hmove : Builtin.changeDir target p with
  | ok q => exact absurd (leads_of_changeDir hmove) h
  | error failure =>
    have hperform : perform (.changeDir target) p = .error failure p := by
      unfold perform
      dsimp only
      rw [get_bind, hmove]
      rfl
    refine ⟨failure, rfl, ?_⟩
    rw [run_of_error hperform]
    exact bind_of_ok (writeLine_of_neverFails hscreen _)

/-! ## Going back -/

/-- A `cd -` with other files than those that were there before. -/
def back (files : FileTree) : Command := fun p => run (.changeDir (some "-")) (p.amid files)

/-- **One way back** to a place, with the files as they are then: `cd -` moves there if the place
can be entered by its path. If not, all that happens is that it is written why. -/
def ReturnsTo (a : Place) (files : FileTree) (p : Shell) : Prop :=
  (files.Admits a ∧ ∃ q, back files p = .ok 0 q ∧ (p.amid files).Moved (Place.path a) q) ∨
  ¬ files.Admits a ∧ ∃ failure, changeDir (some "-") (p.amid files) = .error failure ∧
    back files p = .ok 1 { p.amid files with
      machine := (p.amid files).machine.wrote (failure.message ++ "\n") }

/-- **`cd -` goes back and forth between two places,** first to `a` and then to `b`: however the
files change in between, each one succeeds as long as both places can be entered by their paths. The
next one leads to a directory that still stands if that can be entered, and else nowhere. -/
def GoesBackAndForth (a b : Place) (p : Shell) : Prop :=
  ∀ trees : List FileTree, (∀ tree ∈ trees, tree.Admits a ∧ tree.Admits b) →
    let here := if trees.length % 2 = 0 then b else a
    let there := if trees.length % 2 = 0 then a else b
    ∃ q, trees.mapM back p = .ok (trees.map fun _ => 0) q ∧
      q.environment.currentDir = Place.path here ∧
      q.machine.currentDir = .ok q.environment.currentDir ∧
      ∀ files : FileTree, files.isDirAt there = true → ReturnsTo there files q

/-- A shell at one place that was at another before. -/
structure Between (a b : Place) (p : Shell) : Prop where
  process : p.machine.currentDir = .ok (Place.path b)
  directory : p.environment.currentDir = Place.path b
  previous : p.environment.get? "OLDPWD" = some (stringOf (Place.path a))

theorem Between.of_moved (hmoved : p.Moved (Place.path b) q)
    (hdirectory : p.environment.currentDir = Place.path a) : Between a b q := by
  refine ⟨hmoved.process, hmoved.directory, ?_⟩
  rw [hmoved.previous, hdirectory]

theorem Between.destination (h : Between a b p) (htext : ∃ text, bytesOf text = Place.path a) :
    Builtin.destination p.environment (some "-") = .ok (Place.path a) := by
  obtain ⟨text, htext⟩ := htext
  have hwritten : bytesOf (stringOf (Place.path a)) = Place.path a := by
    rw [← htext, stringOf_bytesOf]
  unfold Builtin.destination
  rw [h.previous]
  show Except.ok (p.environment.currentDir.join (bytesOf (stringOf (Place.path a)))) = _
  rw [hwritten, Path.join_of_absolute _ (Place.isAbsolute_path a)]

section

variable {files : FileTree}

/-- The way back leads to the place that was left. -/
theorem Between.leads (h : Between a b p) (htext : ∃ text, bytesOf text = Place.path a)
    (hadmits : files.Admits a) : Leads (some "-") (p.amid files) (Place.path a) where
  found := ⟨Place.path a, h.destination htext, hadmits.canonical _⟩
  enters := hadmits.exists_workDirOf _

/-- If the place stands but cannot be entered, the way back leads nowhere. -/
theorem Between.admits_of_leads (h : Between a b p) (hproper : Place.Proper a)
    (htext : ∃ text, bytesOf text = Place.path a) (hstands : files.isDirAt a = true)
    (hleads : Leads (some "-") (p.amid files) resolved) : files.Admits a := by
  have hstraight := FileTree.straight_of_isDirAt hproper hstands
  obtain ⟨⟨requested, hrequested, hresolved⟩, dir, hdir⟩ := hleads
  obtain rfl : Place.path a = requested :=
    Except.ok.inj ((h.destination htext).symm.trans hrequested)
  rw [FileTree.canonical_path hstraight hresolved] at hdir
  exact FileTree.admits_of_workDirOf hstraight hdir

/-- **One `cd -`** moves to the place that was left. -/
theorem Between.back (h : Between a b p) (htext : ∃ text, bytesOf text = Place.path a)
    (hadmits : files.Admits a) :
    ∃ q, Builtin.back files p = .ok 0 q ∧ (p.amid files).Moved (Place.path a) q :=
  moved_of_leads (FileTree.straight_of_isDirAt hadmits.fit.proper hadmits.opens.stands)
    (h.leads htext hadmits)

/-- **The way back is taken or not,** and which of both is told by the place alone. -/
theorem Between.returnsTo (h : Between a b p) (hproper : Place.Proper a)
    (htext : ∃ text, bytesOf text = Place.path a) (hscreen : p.machine.screen.NeverFails)
    (hstands : files.isDirAt a = true) : ReturnsTo a files p := by
  by_cases hadmits : files.Admits a
  · exact .inl ⟨hadmits, h.back htext hadmits⟩
  · have hnowhere : ¬ ∃ resolved, Leads (some "-") (p.amid files) resolved := fun ⟨_, hleads⟩ =>
      hadmits (h.admits_of_leads hproper htext hstands hleads)
    exact .inr ⟨hadmits, run_of_not_leads (p := p.amid files) hscreen hnowhere⟩

end

theorem Between.goesBackAndForth (h : Between a b p) (ha : Place.Proper a)
    (hatext : ∃ text, bytesOf text = Place.path a) (hb : Place.Proper b)
    (hbtext : ∃ text, bytesOf text = Place.path b) (hscreen : p.machine.screen.NeverFails) :
    GoesBackAndForth a b p := by
  intro trees
  induction trees generalizing a b p with
  | nil =>
    intro _
    refine ⟨p, rfl, h.directory, ?_, fun files => h.returnsTo ha hatext hscreen⟩
    rw [h.process, h.directory]
  | cons tree rest ih =>
    intro hadmits
    obtain ⟨hfirst, hrest⟩ := List.forall_mem_cons.1 hadmits
    obtain ⟨q, hback, hmoved⟩ := h.back hatext hfirst.1
    -- From there the rest goes the other way round.
    have hq : Between b a q := .of_moved hmoved h.directory
    obtain ⟨r, hrun, hends⟩ := ih hq hb hbtext ha hatext (hmoved.screen ▸ hscreen)
      fun tree hmem => (hrest tree hmem).symm
    have hturns (x y : Place) : (if (rest.length + 1) % 2 = 0 then x else y)
        = if rest.length % 2 = 0 then y else x := by
      by_cases heven : rest.length % 2 = 0
      · rw [if_pos heven, if_neg (by omega)]
      · rw [if_neg heven, if_pos (by omega)]
    simp only [List.length_cons, hturns]
    refine ⟨r, ?_, hends⟩
    rw [List.mapM_cons, bind_of_ok hback, bind_of_ok hrun]
    rfl

end Builtin

end LineShell
