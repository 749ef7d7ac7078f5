import LineShell.Session
import LineShell.Proofs.Action
/-!
What an action of a session does to the session.

Reading and logging happen at the desk and leave the environment alone; running a line happens in
the shell and leaves the history alone.
-/

set_option autoImplicit false

namespace LineShell

/-- The desk of a session. -/
def Session.desk (s : Session) : Desk := ⟨s.shell.machine, s.history⟩

/-- The session with another desk. -/
def Session.withDesk (s : Session) (desk : Desk) : Session :=
  ⟨{ s.shell with machine := desk.machine }, desk.history⟩

namespace SessionM

variable {α : Type} {s : Session}

theorem atDesk_of_ok {action : DeskM α} {a : α} {desk : Desk} (h : action s.desk = .ok a desk) :
    atDesk action s = .ok a (s.withDesk desk) := by
  unfold atDesk
  rw [show action ⟨s.shell.machine, s.history⟩ = .ok a desk from h]
  rfl

theorem atDesk_of_error {action : DeskM α} {e : SessionError} {desk : Desk}
    (h : action s.desk = .error e desk) : atDesk action s = .error e (s.withDesk desk) := by
  unfold atDesk
  rw [show action ⟨s.shell.machine, s.history⟩ = .error e desk from h]
  rfl

theorem exists_of_atDesk {action : DeskM α} {a : α} {s' : Session}
    (h : atDesk action s = .ok a s') :
    ∃ desk, action s.desk = .ok a desk ∧ s' = s.withDesk desk := by
  cases hrun : action s.desk with
  | ok b desk =>
    rw [atDesk_of_ok hrun] at h
    cases h
    exact ⟨desk, rfl, rfl⟩
  | error e desk =>
    rw [atDesk_of_error hrun] at h
    cases h

theorem inShell_of_ok {action : ShellM α} {a : α} {shell : Shell}
    (h : action s.shell = .ok a shell) : inShell action s = .ok a { s with shell } := by
  unfold inShell
  rw [h]

theorem inShell_of_error {action : ShellM α} {cause : Cause} {shell : Shell}
    (h : action s.shell = .error cause shell) :
    inShell action s = .error (.terminal cause) { s with shell } := by
  unfold inShell
  rw [h]

theorem ends_atDesk {action : DeskM α} {holds : α → Desk → Prop} {broken : Desk → Prop}
    (h : Ends action s.desk holds broken) :
    Ends (atDesk action) s (fun a s' => holds a s'.desk) fun s' => broken s'.desk := by
  cases hrun : action s.desk with
  | ok a desk => exact ends_of_ok (atDesk_of_ok hrun) (h.ok a desk hrun)
  | error e desk => exact ends_of_error (atDesk_of_error hrun) (h.error e desk hrun)

/-- What the shell does leaves the history alone. -/
theorem ends_inShell (action : ShellM α) (s : Session) :
    Ends (inShell action) s (fun _ s' => s'.history = s.history)
      fun s' => s'.history = s.history := by
  cases hrun : action s.shell with
  | ok a shell => exact ends_of_ok (inShell_of_ok hrun) rfl
  | error cause shell => exact ends_of_error (inShell_of_error hrun) rfl

/-- What is done in the shell is done to the shell of the session. -/
theorem endOf_inShell (action : ShellM α) (s : Session) :
    endOf (inShell action s) = { s with shell := endOf (action s.shell) } := by
  unfold inShell
  cases action s.shell with
  | ok a shell => rfl
  | error cause shell => rfl

end SessionM

end LineShell
