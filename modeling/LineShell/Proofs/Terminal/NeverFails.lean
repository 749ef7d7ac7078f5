import LineShell.Proofs.Action
/-!
A terminal that never fails.

On a screen that takes everything and can be flushed, the effects on the terminal are plain
functions on machines: `Machine.wrote`, `Machine.flushed` and `Machine.awaited`. Each of them
changes the terminal and the journal only, and only `wrote` changes the screen's contents.
-/

set_option autoImplicit false

namespace LineShell

/-! ## Screens -/

namespace Screen

/-- **A screen that never fails:** it takes whatever is written, and can be flushed. -/
structure NeverFails (screen : Screen) : Prop where
  room : screen.room = none
  flushes : screen.flushes = none

theorem neverFails_unlimited : unlimited.NeverFails := ⟨rfl, rfl⟩

variable {screen : Screen}

theorem NeverFails.accepted (h : screen.NeverFails) (bytes : Bytes) :
    screen.accepted bytes = bytes := by
  rw [Screen.accepted, h.room]

theorem NeverFails.accept (h : screen.NeverFails) (bytes : Bytes) :
    (screen.accept bytes).NeverFails :=
  ⟨by rw [Screen.accept, h.room]; rfl, h.flushes⟩

theorem NeverFails.settled (h : screen.NeverFails) : screen.settled.NeverFails :=
  ⟨h.room, by rw [Screen.settled, h.flushes]; rfl⟩

theorem NeverFails.land (h : screen.NeverFails) (bytes : Bytes) : (screen.land bytes).NeverFails :=
  ⟨h.room, h.flushes⟩

theorem NeverFails.contents_accept (h : screen.NeverFails) (bytes : Bytes) :
    (screen.accept bytes).contents = screen.contents ++ bytes := by
  rw [contents, contents, Screen.accept, h.accepted, List.append_assoc]

@[simp] theorem contents_settled : screen.settled.contents = screen.contents := by
  rw [contents, contents, settled, List.append_nil]

end Screen

/-! ## Machines -/

namespace Machine

/-- The machine after a text was written. -/
def wrote (m : Machine) (text : String) : Machine :=
  { m with
    screen := m.screen.accept (bytesOf text)
    journal := .wrote (bytesOf text) :: m.journal }

/-- The machine after its screen was flushed. -/
def flushed (m : Machine) : Machine :=
  { m with
    screen := m.screen.settled
    journal := .flushed :: m.journal }

/-- The machine after the next byte was asked for. -/
def awaited (m : Machine) : Machine :=
  { m with
    keys := { m.keys with unread := m.keys.unread.tail }
    journal := .awaited :: m.journal }

/-- Two machines that differ in what went to the screen and in the journal, and in nothing else. -/
structure SameInside (m n : Machine) : Prop where
  files : n.files = m.files
  workDir : n.workDir = m.workDir
  keys : n.keys = m.keys
  errors : n.errors = m.errors

theorem SameInside.refl (m : Machine) : m.SameInside m := ⟨rfl, rfl, rfl, rfl⟩

theorem SameInside.trans {m n o : Machine} (h : m.SameInside n) (h' : n.SameInside o) :
    m.SameInside o :=
  ⟨h'.files.trans h.files, h'.workDir.trans h.workDir, h'.keys.trans h.keys,
    h'.errors.trans h.errors⟩

theorem sameInside_wrote (m : Machine) (text : String) : m.SameInside (m.wrote text) :=
  ⟨rfl, rfl, rfl, rfl⟩

theorem sameInside_flushed (m : Machine) : m.SameInside m.flushed := ⟨rfl, rfl, rfl, rfl⟩

theorem contents_wrote {m : Machine} (h : m.screen.NeverFails) (text : String) :
    (m.wrote text).screen.contents = m.screen.contents ++ bytesOf text :=
  h.contents_accept (bytesOf text)

@[simp] theorem contents_flushed (m : Machine) :
    m.flushed.screen.contents = m.screen.contents :=
  Screen.contents_settled

end Machine

/-! ## Effects -/

namespace Effect

variable {m : Machine}

theorem write_of_neverFails (h : m.screen.NeverFails) (text : String) :
    write text m = .ok () (m.wrote text) := by
  have hfits : ¬ (bytesOf text).length < (bytesOf text).length := Nat.lt_irrefl _
  unfold write writeBytes
  rw [get_bind, modify_bind, h.accepted, if_neg hfits]
  rfl

theorem flush_of_neverFails (h : m.screen.NeverFails) : flush m = .ok () m.flushed := by
  have hflushes : m.screen.flushes ≠ some 0 := by
    rw [h.flushes]
    exact (Option.some_ne_none 0).symm
  unfold flush
  rw [get_bind, if_neg hflushes]
  rfl

theorem nextByte_of_failsAfter (h : m.keys.failsAfter = none) :
    nextByte m = .ok m.keys.unread.head? m.awaited := by
  obtain ⟨files, workDir, screen, ⟨unread, failsAfter, shared⟩, errors, journal⟩ := m
  dsimp only at h
  subst h
  rfl

end Effect

namespace DeskM

variable {desk : Desk}

theorem write_of_neverFails (h : desk.machine.screen.NeverFails) (text : String) :
    onTerminal (Effect.write text) desk
      = .ok ⟨⟩ { desk with machine := desk.machine.wrote text } :=
  onMachine_of_ok (Effect.write_of_neverFails h text)

theorem flush_of_neverFails (h : desk.machine.screen.NeverFails) :
    onTerminal Effect.flush desk = .ok ⟨⟩ { desk with machine := desk.machine.flushed } :=
  onMachine_of_ok (Effect.flush_of_neverFails h)

theorem nextByte_of_failsAfter (h : desk.machine.keys.failsAfter = none) :
    onTerminal Effect.nextByte desk
      = .ok desk.machine.keys.unread.head? { desk with machine := desk.machine.awaited } :=
  onMachine_of_ok (Effect.nextByte_of_failsAfter h)

end DeskM

end LineShell
