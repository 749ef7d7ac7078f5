import LineShell.Proofs.Editor.Course
import LineShell.Proofs.Session.Rounds
/-!
Reads that come to nothing.

A read that gives no line has changed nothing of the lines of the history, and a read gives a line
only if its terminal has granted all that it asked for. A session ends where a read fails, and of
the line that was not read nothing is logged or run: since the prompt it has done nothing but ask
its terminal (`Session.read_or_nothing`).
-/

set_option autoImplicit false

namespace LineShell

namespace Session

variable {settings : Settings} {setup : Setup} {s t : Session} {lines : List String}

/-- Reading a line at the desk of a session. -/
theorem readLine_eq (settings : Settings) (t : Session) : readLine settings t =
    SessionM.atDesk (Editor.readLine settings.maxLineLength (promptOf t.shell.environment)) t :=
  rfl

/-- **A session ends where a read fails.** -/
theorem repl_of_unread (htable : QuietTable setup.builtins)
    (hrounds : Rounds settings setup s lines t) {e : SessionError} {v : Session}
    (hread : readLine settings t = .error e v) : repl settings setup s = .error e v := by
  have hround : round settings setup t = .error e v := round_of_unread hread
  have hlast : Last settings setup t := by
    intro u hu
    rw [hround] at hu
    cases hu
  rw [repl_eq_last (shrinks_of_quiet settings htable) hrounds hlast, hround]
  rfl

/-- What a read that failed has done to the session. -/
theorem told_of_unread {e : SessionError} {v : Session} (hread : readLine settings t = .error e v) :
    t.shell.machine.Told v.shell.machine ∧ v.shell.environment = t.shell.environment ∧
      v.history.entries = (endOf (History.ensureLoaded t.desk)).history.entries := by
  have htold := Editor.told_readLine settings.maxLineLength (promptOf t.shell.environment) t.desk
  have hentries :=
    Editor.entries_readLine settings.maxLineLength (promptOf t.shell.environment) t.desk
  rw [readLine_eq] at hread
  rcases hdesk : Editor.readLine settings.maxLineLength (promptOf t.shell.environment) t.desk
    with ⟨line, desk⟩ | ⟨e', desk⟩
  · rw [SessionM.atDesk_of_ok hdesk] at hread
    cases hread
  · rw [SessionM.atDesk_of_error hdesk] at hread
    cases hread
    rw [hdesk] at htold hentries
    exact ⟨htold, rfl, hentries fun line later h => nomatch h⟩

/-- **A line is read, or nothing has happened.** A read that gives no line leaves the lines of the
history as they were loaded. A read comes to its end only if the terminal granted all that its
course asks for, every text, every flush and every key; and it does so if the terminal grants that.
A session whose read fails ends with that failure, and since its last prompt it has done nothing but
ask its terminal: nothing was logged, no command was taken up and no program was started. -/
theorem read_or_nothing (settings : Settings) (htable : QuietTable setup.builtins) :
    (∀ (maxLength : Nat) (prompt : String) (desk : Desk),
      let read := Editor.readLine maxLength prompt desk
      let loaded := endOf (History.ensureLoaded desk)
      let course :=
        Editor.courseOf maxLength prompt desk.machine.keys.unread loaded.history
      ((∀ line later, read ≠ .ok (some line) later) →
        (endOf read).history.entries = loaded.history.entries) ∧
      (∀ line later, read = .ok line later →
        History.ensureLoaded desk = .ok ⟨⟩ loaded ∧ desk.machine.Grants course.requests ∧
          Effect.askAll course.requests desk.machine = .ok () later.machine ∧
          line = course.line) ∧
      (History.ensureLoaded desk = .ok ⟨⟩ loaded → desk.machine.Grants course.requests →
        ∃ later, read = .ok course.line later)) ∧
    ∀ s lines t, Rounds settings setup s lines t →
      ∀ e v, readLine settings t = .error e v →
        repl settings setup s = .error e v ∧ t.shell.machine.Told v.shell.machine ∧
          v.shell.environment = t.shell.environment ∧
          v.history.entries = (endOf (History.ensureLoaded t.desk)).history.entries := by
  refine ⟨fun maxLength prompt desk => ?_, fun s lines t hrounds e v hread => ?_⟩
  · intro read loaded course
    refine ⟨Editor.entries_readLine maxLength prompt desk, fun line later hread => ?_, ?_⟩
    · rcases hload : History.ensureLoaded desk with ⟨⟨⟩, desk'⟩ | ⟨e, desk'⟩
      · have hloaded : loaded = desk' := congrArg endOf hload
        obtain ⟨hask, hline, -⟩ := (Editor.readLine_eq_ok_iff maxLength prompt hload).1 hread
        rw [← hloaded] at hask hline ⊢
        exact ⟨rfl, (Effect.exists_askAll_iff _ _).1 ⟨_, hask⟩, hask, hline⟩
      · have herror : read = .error e desk' := bind_of_error (bind_of_error hload)
        rw [herror] at hread
        cases hread
    · intro hload hgrants
      obtain ⟨later, hread, -⟩ := Editor.readLine_of_grants maxLength prompt hload hgrants
      exact ⟨later, hread⟩
  · exact ⟨repl_of_unread htable hrounds hread, told_of_unread hread⟩

/-! ### A screen that is used up -/

/-- A session with one line in its history, on some screen. The line is recalled, one more character
is typed, and the line is ended. -/
def recalling (screen : Screen) : Session :=
  let machine := { Machine.boot .empty with screen, keys := .ofBytes (bytesOf "\x1b[Ax\n") }
  { start {} machine [] with history := (History.start 5 none).record "ls" }

/-- On a screen with room for the prompt and the recalled line only, the read fails at the character
that is typed. On a screen that is flushed three times it fails at the very end, where the end of
the line was written already and is to be shown. Either way the session ends with it, and the
history holds what it held. -/
theorem read_or_nothing_recalling :
    (∃ v, repl {} (setupOf {} ⟨fun _ _ => none⟩ Builtin.table) (recalling (.blank (some 20) false))
        = .error (.terminal .screenFull) v ∧
      v.history.recalled = some 0 ∧ v.history.entries = ["ls"] ∧
      (recalling (.blank (some 20) false)).shell.machine.Told v.shell.machine) ∧
    ∃ v, repl {} (setupOf {} ⟨fun _ _ => none⟩ Builtin.table) (recalling ⟨[], [], none, some 3⟩)
        = .error (.terminal .flushFailed) v ∧
      v.shell.machine.screen.pending = bytesOf "\n" ∧ v.history.entries = ["ls"] ∧
      (recalling ⟨[], [], none, some 3⟩).shell.machine.Told v.shell.machine := by
  have hroom : (match readLine {} (recalling (.blank (some 20) false)) with
      | .error (.terminal .screenFull) v => some v.history.recalled
      | _ => none) = some (some 0) := by
    decide +kernel
  have hflushes : (match readLine {} (recalling ⟨[], [], none, some 3⟩) with
      | .error (.terminal .flushFailed) v => some v.shell.machine.screen.pending
      | _ => none) = some (bytesOf "\n") := by
    decide +kernel
  have hends := (@read_or_nothing (setupOf {} ⟨fun _ _ => none⟩ Builtin.table) {}
    quietTable_builtins).2
  constructor
  · split at hroom
    · next v hread =>
      obtain ⟨hrepl, htold, -, hentries⟩ := hends _ [] _ (.refl _) _ v hread
      exact ⟨v, hrepl, Option.some.inj hroom, hentries, htold⟩
    · cases hroom
  · split at hflushes
    · next v hread =>
      obtain ⟨hrepl, htold, -, hentries⟩ := hends _ [] _ (.refl _) _ v hread
      exact ⟨v, hrepl, Option.some.inj hflushes, hentries, htold⟩
    · cases hflushes

end Session

end LineShell
