import LineShell.Proofs.Editor.Extent
import LineShell.Proofs.Session.Rounds
import LineShell.Proofs.Terminal.Order
/-!
Output lands in the order in which it is made.

Everything that a session or a line shows is on the screen in the order of the journal, what other
programs print included, and nothing is held back while the shell waits for a key or for a program.
Nothing is held back at the end either, but for the line break after the key that ends the input.
All this is `Session.repl_in_order`, for every input and whatever the programs do.
-/

set_option autoImplicit false

namespace LineShell

/-- **What a read leaves** on a screen that never fails. -/
theorem Editor.extent_of_readLine {maxLength : Nat} {prompt : String} {desk later : Desk}
    {line : Option String} (hscreen : desk.machine.screen.NeverFails)
    (hread : readLine maxLength prompt desk = .ok line later) :
    ∃ loaded stop own, History.ensureLoaded desk = .ok ⟨⟩ loaded ∧
      Extent (max maxLength 1) loaded.history.entries desk.machine.keys.unread stop own
        later.machine.keys.unread ∧
      line = stop.line (typed (max maxLength 1) loaded.history.entries own).text ∧
      later.machine.screen.pending = stop.held := by
  obtain ⟨⟨⟩, ready, hprepare, -⟩ := bind_eq_ok.1 hread
  obtain ⟨⟨⟩, loaded, hload, -⟩ := bind_eq_ok.1 hprepare
  obtain ⟨⟨stop, text, rfl, hcame⟩, -⟩ :=
    (ends_readLine maxLength prompt hload hscreen).ok _ _ hread
  obtain ⟨own, hextent, rfl⟩ := hcame.extent
  exact ⟨loaded, stop, own, hload, hextent, rfl, hcame.held⟩

namespace Session

variable {settings : Settings} {setup : Setup} {s t u : Session}

/-- **How a session ends well.** -/
inductive Ended (settings : Settings) (t u : Session) : Prop where
  /-- A command of the last line asked to leave. Nothing is held back. -/
  | left (line : String) (read : Session) (hread : readLine settings t = .ok (some line) read)
      (hheld : u.shell.machine.screen.pending = [])
  /-- The last read gave no line. Held back is what it left. -/
  | finished (loaded : Desk) (stop : Editor.Stop) (own : Bytes)
      (hload : History.ensureLoaded t.desk = .ok ⟨⟩ loaded)
      (hread : readLine settings t = .ok none u)
      (hextent : Editor.Extent (max settings.maxLineLength 1) loaded.history.entries
        t.shell.machine.keys.unread stop own u.shell.machine.keys.unread)
      (hheld : u.shell.machine.screen.pending = stop.held)

/-- A session ends where no line is read. -/
theorem ended_of_no_line (hscreen : t.shell.machine.screen.NeverFails)
    (hread : readLine settings t = .ok none u) : Ended settings t u := by
  obtain ⟨desk, hdesk, rfl⟩ := SessionM.exists_of_atDesk hread
  have hready : t.desk.machine.screen.NeverFails := hscreen
  obtain ⟨loaded, stop, own, hload, hextent, -, hheld⟩ := Editor.extent_of_readLine hready hdesk
  exact .finished loaded stop own hload hread hextent hheld

/-- **A last round that succeeds** ends the session well. -/
theorem Last.ended (hlast : Last settings setup t) (htable : QuietTable setup.builtins)
    (hscreen : t.shell.machine.screen.NeverFails)
    (hround : closed (round settings setup t) = .ok () u) : Ended settings t u := by
  have hcases := round_cases settings setup t
  generalize hresult : round settings setup t = result at hcases hround
  cases hcases with
  | finished v hread =>
    cases hround
    exact ended_of_no_line hscreen hread
  | blank v hread => exact absurd hresult (hlast v)
  | ran line read logged outcomes shell hread hline hpersist hrun =>
    cases hround
    exact .left line read hread ((ends_runLine htable line logged.shell).ok _ _ hrun).2
  | unread e v hread => cases hround
  | unlogged line read e v hread hline hpersist => cases hround
  | broken line read logged cause shell hread hline hpersist hrun => cases hround

/-- **A line is shown in order,** and nothing is held back at its end. -/
theorem runLine_shows (htable : QuietTable setup.builtins) (line : String) (shell : Shell) :
    (∃ events, shell.machine.Shows events (endOf (runLine setup line shell)).machine) ∧
      ∀ outcomes later, runLine setup line shell = .ok outcomes later →
        later.machine.screen.pending = [] := by
  have hends := ends_runLine htable line shell
  have hdoes : DoesSome (commandsOf line) shell (endOf (runLine setup line shell)) :=
    (hends.mono (fun _ _ h => h.1) fun _ h => h).endOf
  obtain ⟨count, hreach⟩ := hdoes
  exact ⟨hreach.shows, fun outcomes later hrun => (hends.ok _ _ hrun).2⟩

/-- **Output lands in order, and nothing is held back while the shell waits.** This is so for a
session and for a single line, and whether they succeed or fail. A line that succeeds leaves nothing
behind that is not flushed. A session that succeeds leaves the line break after the key that ends
the input, if that is how it came to its end, and nothing otherwise. -/
theorem repl_in_order (settings : Settings) (htable : QuietTable setup.builtins)
    (hscreen : s.shell.machine.screen.NeverFails) :
    (∃ events, s.shell.machine.Shows events (endOf (repl settings setup s)).shell.machine) ∧
    (∀ u, repl settings setup s = .ok () u →
      ∃ lines t, Rounds settings setup s lines t ∧ Ended settings t u) ∧
    ∀ line shell,
      (∃ events, shell.machine.Shows events (endOf (runLine setup line shell)).machine) ∧
        ∀ outcomes later, runLine setup line shell = .ok outcomes later →
          later.machine.screen.pending = [] := by
  obtain ⟨lines, t, deeds, done, hrounds, hlast, hrepl, -, -, hreach⟩ :=
    repl_reaches settings htable s
  refine ⟨hreach.shows, fun u hu => ⟨lines, t, hrounds, ?_⟩, runLine_shows htable⟩
  obtain ⟨⟨deeds, -, hrounds⟩, -⟩ := hrounds.reaches htable
  exact hlast.ended htable (hrounds.neverFails hscreen) (hrepl.symm.trans hu)

/-! ### A program between two messages -/

/-- A session in which a builtin, a program and a command that is not found follow each other. Its
input is ended by a key. -/
def mingling : Session :=
  let files := FileTree.empty.add (bytesOf "x") [] (.file [] .all)
  let machine := { Machine.boot files with keys := .ofBytes (bytesOf "echo a; /x; y\n\x04") }
  .start {} machine []

/-- Every program prints the same. -/
def greeting : Setup :=
  setupOf {} ⟨fun world _ => some ⟨.code 0, bytesOf "hi\n", [], world.files, 0⟩⟩ Builtin.table

/-- What the program prints stands between the messages, and one line break is left behind. -/
theorem repl_in_order_mingling : ∃ last events lines t,
    repl {} greeting mingling = .ok () last ∧
      mingling.shell.machine.Shows events last.shell.machine ∧
      events.flatMap Event.output = bytesOf
        "psh:/$ echo a; /x; y\na\nhi\npsh: No command found: y\npsh:/$ \n" ∧
      Rounds {} greeting mingling lines t ∧ Ended {} t last ∧
      last.shell.machine.screen.pending = bytesOf "\n" := by
  have hok : (EStateM.run' (repl {} greeting) mingling).isSome = true := by decide +kernel
  have hcontents : (endOf (repl {} greeting mingling)).shell.machine.screen.contents
      = bytesOf "psh:/$ echo a; /x; y\na\nhi\npsh: No command found: y\npsh:/$ \n" := by
    decide +kernel
  have hheld : (endOf (repl {} greeting mingling)).shell.machine.screen.pending
      = bytesOf "\n" := by
    decide +kernel
  obtain ⟨⟨events, hshows⟩, hended, -⟩ := @repl_in_order greeting mingling {} quietTable_builtins
    Screen.neverFails_unlimited
  cases hrepl : repl {} greeting mingling with
  | ok value last =>
    rw [hrepl] at hcontents hheld hshows
    obtain ⟨lines, t, hrounds, hlast⟩ := hended last hrepl
    refine ⟨last, events, lines, t, rfl, hshows, ?_, hrounds, hlast, hheld⟩
    exact hshows.contents.symm.trans hcontents
  | error e last =>
    delta EStateM.run' EStateM.run at hok
    rw [hrepl] at hok
    cases hok

end Session

end LineShell
