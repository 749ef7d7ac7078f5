import LineShell.Proofs.Action
import LineShell.Proofs.Files.Appending
/-!
What a line that is persisted does to the files.

Both logs are opened and then written. If the log of the session is another file than the long-lived
one, the long-lived log holds one line more afterwards, and paths name what they named.
-/

set_option autoImplicit false

namespace LineShell

namespace Effect

variable {m m' : Machine}

theorem openFile_eq_ok {path : Path} {place : Place} (h : openFile path m = .ok place m') :
    ∃ files, m.files.openFile m.base path .plain = .ok (place, files) ∧ m' = { m with files } := by
  unfold openFile at h
  rw [get_bind] at h
  cases hopen : m.files.openFile m.base path .plain with
  | error cause =>
    rw [hopen] at h
    cases h
  | ok opened =>
    obtain ⟨found, files⟩ := opened
    rw [hopen] at h
    cases h
    exact ⟨files, rfl, rfl⟩

theorem append_eq_ok {place : Place} {bytes : Bytes} (h : append place bytes m = .ok ⟨⟩ m') :
    m'.files = m.files.appendAt place bytes ∧ m'.workDir = m.workDir := by
  unfold append at h
  rw [get_bind] at h
  cases hfull : m.files.isFullAt place with
  | true =>
    rw [hfull] at h
    cases h
  | false =>
    rw [hfull] at h
    cases h
    exact ⟨rfl, rfl⟩

end Effect

namespace FileTree

/-- The log at a place holds some bytes and may be read. A log that is missing holds none. -/
def HoldsLog (tree : FileTree) (place : Place) (data : Bytes) : Prop :=
  tree.node? place = none ∧ data = [] ∨
    ∃ rights, tree.node? place = some (.file data rights) ∧ rights.read = true

end FileTree

namespace Machine

theorem base_stands (m : Machine) (found : Place) (h : m.base = some found) :
    m.files.Stands found :=
  FileTree.stands_of_placeOf h

end Machine

namespace History

/-- **What persisting does:** both logs are opened and then written. -/
theorem persist_eq_ok {line : String} {desk desk' : Desk} {logs : Logs}
    (hlogs : desk.history.logs = some logs) (h : persist line desk = .ok ⟨⟩ desk') :
    ∃ memory session files₁ files₂,
      desk.machine.files.openFile desk.machine.base logs.memory .plain = .ok (memory, files₁) ∧
      files₁.openFile { desk.machine with files := files₁ }.base logs.session .plain
        = .ok (session, files₂) ∧
      desk'.machine.files
        = (files₂.appendAt memory (bytesOf (line ++ "\n"))).appendAt session
            (bytesOf (line ++ "\n")) ∧
      desk'.machine.workDir = desk.machine.workDir ∧ desk'.history = desk.history := by
  unfold persist at h
  rw [get_bind, hlogs] at h
  dsimp only at h
  obtain ⟨memory, desk₁, hmemory, h⟩ := bind_eq_ok.1 h
  obtain ⟨session, desk₂, hsession, h⟩ := bind_eq_ok.1 h
  obtain ⟨⟨⟩, desk₃, hfirst, hsecond⟩ := bind_eq_ok.1 h
  obtain ⟨m₁, heffect₁, rfl⟩ := DeskM.onMachine_eq_ok.1 hmemory
  obtain ⟨m₂, heffect₂, rfl⟩ := DeskM.onMachine_eq_ok.1 hsession
  obtain ⟨m₃, heffect₃, rfl⟩ := DeskM.onMachine_eq_ok.1 hfirst
  obtain ⟨m₄, heffect₄, rfl⟩ := DeskM.onMachine_eq_ok.1 hsecond
  obtain ⟨files₁, hopen₁, rfl⟩ := Effect.openFile_eq_ok heffect₁
  obtain ⟨files₂, hopen₂, rfl⟩ := Effect.openFile_eq_ok heffect₂
  obtain ⟨hfiles₃, hdir₃⟩ := Effect.append_eq_ok heffect₃
  obtain ⟨hfiles₄, hdir₄⟩ := Effect.append_eq_ok heffect₄
  refine ⟨memory, session, files₁, files₂, hopen₁, hopen₂, ?_, hdir₄.trans hdir₃, rfl⟩
  rw [hfiles₄, hfiles₃]

/-- **A line that is persisted is put behind the long-lived log.** The log of the session has to be
another file. -/
theorem holdsLog_of_persist {line : String} (desk : Desk) {desk' : Desk} {logs : Logs} {log : Place}
    {data : Bytes} (hlogs : desk.history.logs = some logs)
    (hnames : desk.machine.files.Names desk.machine.base logs.memory log)
    (hapart : ¬ desk.machine.files.Names desk.machine.base logs.session log)
    (hholds : desk.machine.files.HoldsLog log data)
    (h : persist line desk = .ok ⟨⟩ desk') :
    desk'.machine.files.HoldsLog log (data ++ bytesOf (line ++ "\n")) ∧
      desk.machine.files.KeepsNames desk'.machine.files ∧
      desk'.machine.workDir = desk.machine.workDir ∧ desk'.history = desk.history := by
  obtain ⟨memory, session, files₁, files₂, hopen₁, hopen₂, hfiles, hdir, hhistory⟩ :=
    persist_eq_ok hlogs h
  -- The first file that is opened is the log, and it is there then.
  obtain ⟨hmemory, hfirst⟩ := FileTree.openFile_eq_ok (Machine.base_stands _) hopen₁
  obtain rfl : memory = log := hmemory.unique hnames
  have hopened : desk.machine.files.KeepsNames files₁ ∧
      ∃ rights, files₁.node? memory = some (.file data rights) ∧ rights.read = true := by
    rcases hfirst with ⟨rfl, node, hnode⟩ | ⟨hfree, hgrows, hnew⟩
    · rcases hholds with ⟨hnone, -⟩ | hfile
      · rw [hnone] at hnode
        cases hnode
      · exact ⟨.refl _, hfile⟩
    · rcases hholds with ⟨-, rfl⟩ | ⟨rights, hfile, -⟩
      · exact ⟨hgrows.keepsNames, .plain, hnew, rfl⟩
      · rw [hfree] at hfile
        cases hfile
  obtain ⟨hkeeps₁, rights, hfile, hread⟩ := hopened
  -- The second one is another file.
  obtain ⟨hsession, hsecond⟩ := FileTree.openFile_eq_ok (Machine.base_stands _) hopen₂
  have hbase : { desk.machine with files := files₁ }.base = desk.machine.base :=
    hkeeps₁.placeOf _ _
  rw [hbase, hkeeps₁.names] at hsession
  have hne : session ≠ memory := fun heq => hapart (heq ▸ hsession)
  have hopened₂ : files₁.KeepsNames files₂ ∧
      files₂.node? memory = some (.file data rights) := by
    rcases hsecond with ⟨rfl, -⟩ | ⟨-, hgrows, -⟩
    · exact ⟨.refl _, hfile⟩
    · exact ⟨hgrows.keepsNames, (hgrows.elsewhere memory hne.symm).trans hfile⟩
  obtain ⟨hkeeps₂, hfile₂⟩ := hopened₂
  -- Then both are written.
  obtain ⟨hgrows, hwritten⟩ := FileTree.grows_appendAt hfile₂ (bytesOf (line ++ "\n"))
  have hlast : (files₂.appendAt memory (bytesOf (line ++ "\n"))).KeepsNames desk'.machine.files ∧
      desk'.machine.files.node? memory
        = some (.file (data ++ bytesOf (line ++ "\n")) rights) := by
    rw [hfiles]
    rcases FileTree.appendAt_eq_or (files₂.appendAt memory (bytesOf (line ++ "\n"))) session
        (bytesOf (line ++ "\n")) with hsame | hgrows
    · rw [hsame]
      exact ⟨.refl _, hwritten⟩
    · exact ⟨hgrows.keepsNames, (hgrows.elsewhere memory hne.symm).trans hwritten⟩
  exact ⟨.inr ⟨rights, hlast.2, hread⟩,
    hkeeps₁.trans (hkeeps₂.trans (hgrows.keepsNames.trans hlast.1)), hdir, hhistory⟩

end History

end LineShell
