import LineShell.Proofs.History.Persisting
/-!
Opening both logs before either is written.

`Machine.opening` says what comes of it: both logs are open, each at the place that its path names,
or one of them is refused. Where one is refused nothing but an empty long-lived log may be new
(`spared_of_refused`), and persisting fails with the path that was refused (`persist_of_refused`).
Where both are open a line is put once behind each of them, and nothing else changes
(`persist_of_opened`, `putBehind_of_opened`).
-/

set_option autoImplicit false

namespace LineShell

namespace FileTree

/-- The file at a place holds some bytes. One that is missing holds none. -/
def Holds (tree : FileTree) (place : Place) (data : Bytes) : Prop :=
  tree.node? place = none ∧ data = [] ∨ ∃ rights, tree.node? place = some (.file data rights)

/-- **Nothing is written.** What a path names may be an empty file where nothing stood. -/
def Spared (before after : FileTree) (base : Option Place) (path : Path) : Prop :=
  ∀ place, after.node? place = before.node? place ∨
    before.Names base path place ∧ before.node? place = none ∧
      after.node? place = some (.file [] .plain)

/-- **Bytes are put once behind two files,** and nothing else changes. -/
structure PutBehind (before after : FileTree) (first second : Place) (bytes : Bytes) : Prop where
  atFirst : ∀ data, before.Holds first data → after.Holds first (data ++ bytes)
  atSecond : ∀ data, before.Holds second data → after.Holds second (data ++ bytes)
  elsewhere : ∀ place, place ≠ first → place ≠ second → after.node? place = before.node? place

variable {tree later : FileTree} {place other : Place}

theorem spared_refl (tree : FileTree) (base : Option Place) (path : Path) :
    tree.Spared tree base path := fun _ => .inl rfl

/-- Opening a file for writing makes an empty one at most. -/
theorem spared_of_openFile {base : Option Place} {path : Path}
    (hbase : ∀ found, base = some found → tree.Stands found)
    (h : tree.openFile base path .plain = .ok (place, later)) : tree.Spared later base path := by
  obtain ⟨hnames, ⟨rfl, -⟩ | ⟨hfree, hgrows, hnew⟩⟩ := openFile_eq_ok hbase h
  · exact spared_refl later base path
  · intro other
    by_cases hother : other = place
    · subst hother
      exact .inr ⟨hnames, hfree, hnew⟩
    · exact .inl (hgrows.elsewhere other hother)

/-- A file that was opened holds what it held. -/
theorem Holds.of_spared {base : Option Place} {path : Path} {data : Bytes}
    (h : tree.Holds place data) (hspared : tree.Spared later base path) :
    later.Holds place data := by
  rcases hspared place with hsame | ⟨-, hfree, hnew⟩
  · unfold Holds
    rwa [hsame]
  · rcases h with ⟨-, rfl⟩ | ⟨rights, hfile⟩
    · exact .inr ⟨.plain, hnew⟩
    · rw [hfree] at hfile
      cases hfile

theorem Stands.of_spared {base : Option Place} {path : Path} (h : tree.Stands place)
    (hspared : tree.Spared later base path) : later.Stands place := by
  rcases hspared place with hsame | ⟨-, -, hnew⟩
  · unfold Stands
    rwa [hsame]
  · exact ⟨_, hnew⟩

/-- What was opened stands there. -/
theorem stands_of_openFile {base : Option Place} {path : Path}
    (hbase : ∀ found, base = some found → tree.Stands found)
    (h : tree.openFile base path .plain = .ok (place, later)) : later.Stands place := by
  obtain ⟨-, ⟨rfl, hstands⟩ | ⟨-, -, hnew⟩⟩ := openFile_eq_ok hbase h
  · exact hstands
  · exact ⟨_, hnew⟩

/-- Bytes are put behind a file that stands, and what another place holds stays. -/
theorem Holds.appendAt {data : Bytes} (h : tree.Holds place data) (hstands : tree.Stands place)
    (bytes : Bytes) : (tree.appendAt place bytes).Holds place (data ++ bytes) := by
  obtain ⟨node, hnode⟩ := hstands
  rcases h with ⟨hnone, -⟩ | ⟨rights, hfile⟩
  · rw [hnone] at hnode
    cases hnode
  · exact .inr ⟨rights, (grows_appendAt hfile bytes).2⟩

theorem node?_appendAt_of_ne (tree : FileTree) (bytes : Bytes) (h : other ≠ place) :
    (tree.appendAt place bytes).node? other = tree.node? other := by
  rcases appendAt_eq_or tree place bytes with hsame | hgrows
  · rw [hsame]
  · exact hgrows.elsewhere other h

end FileTree

/-! ## Opening -/

/-- What comes of opening both logs. -/
inductive Opening where
  /-- One of them cannot be opened. -/
  | refused (path : Path) (cause : Cause) (files : FileTree)
  /-- Both are open, at these places. -/
  | opened (memory session : Place) (files : FileTree)

namespace Machine

/-- **Opening both logs,** the long-lived one first. -/
def opening (m : Machine) (logs : Logs) : Opening :=
  match m.files.openFile m.base logs.memory .plain with
  | .error cause => .refused logs.memory cause m.files
  | .ok (memory, opened) =>
    match opened.openFile { m with files := opened }.base logs.session .plain with
    | .error cause => .refused logs.session cause opened
    | .ok (session, files) => .opened memory session files

variable {m : Machine} {logs : Logs} {path : Path} {cause : Cause} {files : FileTree}
  {memory session : Place}

/-- **Where a log is refused nothing is written.** -/
theorem spared_of_refused (h : m.opening logs = .refused path cause files) :
    m.files.Spared files m.base logs.memory := by
  unfold opening at h
  split at h
  · cases h
    exact FileTree.spared_refl _ _ _
  · next hopen =>
    have hspared := FileTree.spared_of_openFile (base_stands m) hopen
    split at h
    · cases h
      exact hspared
    · cases h

/-- What both logs being open tells. -/
theorem opening_eq_opened (h : m.opening logs = .opened memory session files) :
    ∃ opened, m.files.openFile m.base logs.memory .plain = .ok (memory, opened) ∧
      opened.openFile { m with files := opened }.base logs.session .plain
        = .ok (session, files) := by
  unfold opening at h
  split at h
  · cases h
  · next hopen =>
    split at h
    · cases h
    · next hopen' =>
      cases h
      exact ⟨_, hopen, hopen'⟩

/-- **Both logs are open at the places that their paths name.** -/
theorem names_of_opened (h : m.opening logs = .opened memory session files) :
    m.files.Names m.base logs.memory memory ∧ m.files.Names m.base logs.session session := by
  obtain ⟨opened, hopen, hopen'⟩ := opening_eq_opened h
  obtain ⟨hmemory, hfirst⟩ := FileTree.openFile_eq_ok (base_stands m) hopen
  obtain ⟨hsession, -⟩ := FileTree.openFile_eq_ok (base_stands { m with files := opened }) hopen'
  -- The second path is looked up after the first file was made; it names the same place as before.
  have hkeeps : m.files.KeepsNames opened := by
    rcases hfirst with ⟨rfl, -⟩ | ⟨-, hgrows, -⟩
    · exact .refl _
    · exact hgrows.keepsNames
  have hbase : { m with files := opened }.base = m.base := hkeeps.placeOf _ _
  rw [hbase] at hsession
  exact ⟨hmemory, (hkeeps.names _ _ _).1 hsession⟩

/-- **What is put behind both logs** is put once behind each of them, if they are two files. -/
theorem putBehind_of_opened (h : m.opening logs = .opened memory session files)
    (hne : memory ≠ session) (bytes : Bytes) :
    m.files.PutBehind ((files.appendAt memory bytes).appendAt session bytes) memory session
      bytes := by
  obtain ⟨opened, hopen, hopen'⟩ := opening_eq_opened h
  have hnames := (FileTree.openFile_eq_ok (base_stands m) hopen).1
  have hnames' := (FileTree.openFile_eq_ok (base_stands { m with files := opened }) hopen').1
  have hfirst := FileTree.spared_of_openFile (base_stands m) hopen
  have hsecond := FileTree.spared_of_openFile (base_stands { m with files := opened }) hopen'
  have hmemory : files.Stands memory :=
    (FileTree.stands_of_openFile (base_stands m) hopen).of_spared hsecond
  have hsession : files.Stands session :=
    FileTree.stands_of_openFile (base_stands { m with files := opened }) hopen'
  have hheld {place : Place} {data : Bytes} (hdata : m.files.Holds place data) :
      files.Holds place data := (hdata.of_spared hfirst).of_spared hsecond
  have hapart : (files.appendAt memory bytes).node? session = files.node? session :=
    FileTree.node?_appendAt_of_ne files bytes (Ne.symm hne)
  refine ⟨fun data hdata => ?_, fun data hdata => ?_, fun place hplace hplace' => ?_⟩
  · have hwritten := (hheld hdata).appendAt hmemory bytes
    unfold FileTree.Holds at hwritten ⊢
    rwa [FileTree.node?_appendAt_of_ne _ _ hne]
  · refine FileTree.Holds.appendAt ?_ ?_ bytes
    · unfold FileTree.Holds
      rw [hapart]
      exact hheld hdata
    · unfold FileTree.Stands
      rwa [hapart]
  · rw [FileTree.node?_appendAt_of_ne _ _ hplace', FileTree.node?_appendAt_of_ne _ _ hplace]
    -- A file that was made stands at the place of its log, and this is another one.
    have hopened : opened.node? place = m.files.node? place := by
      rcases hfirst place with hsame | ⟨hother, -⟩
      · exact hsame
      · exact absurd (hother.unique hnames) hplace
    rcases hsecond place with hsame | ⟨hother, -⟩
    · rw [hsame, hopened]
    · exact absurd (hother.unique hnames') hplace'

/-- A log that takes bytes takes them also after bytes were put behind another place. -/
theorem isFullAt_appendAt (bytes : Bytes) (place : Place)
    (h : files.isFullAt session = false) :
    (files.appendAt place bytes).isFullAt session = false := by
  unfold FileTree.isFullAt at h ⊢
  by_cases hplace : session = place
  · subst hplace
    rcases FileTree.appendAt_eq_or files session bytes with hsame | hgrows
    · rwa [hsame]
    · obtain ⟨data, rights, hfile⟩ := hgrows.after
      rw [hfile]
      rfl
  · rwa [FileTree.node?_appendAt_of_ne files bytes hplace]

end Machine

/-! ## Persisting -/

namespace History

/-- What is put behind a log for a line. -/
def entryOf (line : String) : Bytes := bytesOf (line ++ "\n")

variable {desk : Desk} {logs : Logs} {path : Path} {cause : Cause} {files : FileTree}
  {memory session : Place}

theorem openFile_of_ok {m : Machine} {place : Place} {opened : FileTree}
    (h : m.files.openFile m.base path .plain = .ok (place, opened)) :
    Effect.openFile path m = .ok place { m with files := opened } := by
  unfold Effect.openFile
  rw [get_bind, h]
  rfl

theorem openFile_of_error {m : Machine}
    (h : m.files.openFile m.base path .plain = .error cause) :
    Effect.openFile path m = .error cause m := by
  unfold Effect.openFile
  rw [get_bind, h]
  rfl

theorem append_of_not_full {m : Machine} {place : Place} (bytes : Bytes)
    (h : m.files.isFullAt place = false) : Effect.append place bytes m = .ok ⟨⟩
      { m with
        files := m.files.appendAt place bytes
        journal := .logged place bytes :: m.journal } := by
  unfold Effect.append
  rw [get_bind, h]
  rfl

/-- **Persisting fails where a log is refused,** and the failure names its path. -/
theorem persist_of_refused (line : String) (hlogs : desk.history.logs = some logs)
    (h : desk.machine.opening logs = .refused path cause files) :
    persist line desk
      = .error (.historyLog path cause) { desk with machine := { desk.machine with files } } := by
  unfold persist
  rw [get_bind, hlogs]
  dsimp only
  unfold Machine.opening at h
  split at h
  · next hopen =>
    cases h
    exact bind_of_error (DeskM.onMachine_of_error (openFile_of_error hopen))
  · next place opened hopen =>
    rw [bind_of_ok (DeskM.onMachine_of_ok (openFile_of_ok hopen))]
    split at h
    · next hopen' =>
      cases h
      exact bind_of_error (DeskM.onMachine_of_error (openFile_of_error hopen'))
    · cases h

/-- **Persisting puts the line behind both logs** where both are open and take it. -/
theorem persist_of_opened (line : String) (hlogs : desk.history.logs = some logs)
    (h : desk.machine.opening logs = .opened memory session files)
    (hmemory : files.isFullAt memory = false) (hsession : files.isFullAt session = false) :
    persist line desk = .ok ⟨⟩
      { desk with
        machine :=
          { desk.machine with
            files := (files.appendAt memory (entryOf line)).appendAt session (entryOf line)
            journal := .logged session (entryOf line) :: .logged memory (entryOf line)
              :: desk.machine.journal } } := by
  obtain ⟨opened, hopen, hopen'⟩ := Machine.opening_eq_opened h
  have hafter := Machine.isFullAt_appendAt (entryOf line) memory hsession
  unfold persist
  rw [get_bind, hlogs]
  dsimp only
  rw [bind_of_ok (DeskM.onMachine_of_ok (openFile_of_ok hopen)),
    bind_of_ok (DeskM.onMachine_of_ok (openFile_of_ok hopen')),
    bind_of_ok (DeskM.onMachine_of_ok (append_of_not_full _ hmemory)),
    DeskM.onMachine_of_ok (append_of_not_full _ hafter)]
  rfl

end History

end LineShell
