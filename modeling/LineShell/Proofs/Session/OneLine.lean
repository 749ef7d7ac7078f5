import LineShell.Programs.Standard
import LineShell.Proofs.Editor.Typing
import LineShell.Proofs.Session.Rounds
import LineShell.Proofs.Shell.Commands
/-!
A session in which one line is typed.

Typing a line and running it (`Session.repl`) comes to the same as running it at once (`runLine`):
reading leaves a shell that is alike but for the prompt and the line on its screen, and running a
line is blind to those. What is left is to follow the stages of the session (`round_of_typed`) up to
the read at the end of the input.
-/

set_option autoImplicit false

namespace LineShell

/-! ## A history in memory -/

namespace History

theorem ensureLoaded_of_no_logs {desk : Desk} (h : desk.history.logs = none) :
    ∃ loaded, ensureLoaded desk = .ok ⟨⟩ loaded ∧ loaded.history.logs = none := by
  rw [ensureLoaded_eq]
  by_cases hloaded : desk.history.loaded
  · rw [if_pos hloaded]
    exact ⟨desk, rfl, h⟩
  · rw [if_neg hloaded, h]
    exact ⟨_, rfl, h⟩

theorem persist_of_no_logs {desk : Desk} (h : desk.history.logs = none) (line : String) :
    persist line desk = .ok ⟨⟩ desk := by
  unfold persist
  rw [get_bind, h]
  rfl

end History

namespace Session

variable {settings : Settings} {setup : Setup} {host : Host} {session : Session} {text : String}

/-! ## Reading -/

/-- A session whose terminal does not fail and whose history is in memory only. -/
structure InMemory (session : Session) : Prop where
  ready : Editor.Ready session.desk 0
  logs : session.history.logs = none

/-- **A line that is typed is read,** and the prompt and the line are on the screen. -/
theorem readLine_of_typed (h : session.InMemory)
    (hunseen : session.shell.machine.keys.shared = false ∨ host.LeavesKeys)
    (hunread : session.shell.machine.keys.unread = bytesOf (text ++ "\n"))
    (htext : ∀ c ∈ text.toList, Printable c) (hfits : text.length ≤ max settings.maxLineLength 1) :
    ∃ later, readLine settings session = .ok (some (finishLine text)) later ∧
      later.history.logs = none ∧
      Alike host session.shell.machine.screen.contents
        (session.shell.machine.screen.contents
          ++ bytesOf (promptOf session.shell.environment ++ text ++ "\n"))
        session.shell later.shell := by
  have hnone : session.desk.history.logs = none := h.logs
  obtain ⟨loaded, hload, hlogs⟩ := History.ensureLoaded_of_no_logs hnone
  obtain ⟨desk, hread, hhistory, hechoed⟩ := Editor.readLine_of_typed
    (promptOf session.shell.environment) hload h.ready hunread htext hfits
  refine ⟨session.withDesk desk, ?_, ?_, ?_⟩
  · unfold readLine
    rw [get_bind]
    exact SessionM.atDesk_of_ok hread
  · show desk.history.logs = none
    rw [hhistory, Editor.logs_kept]
    exact hlogs
  · refine ⟨rfl, hechoed.files.symm, hechoed.workDir.symm, hechoed.errors.symm, h.ready.screen,
      hechoed.ready.screen, hunseen, ⟨hechoed.unread, hechoed.ready.keys⟩, [], ?_, ?_⟩
    · rw [List.append_nil]
    · rw [List.append_nil, Editor.bytesOf_eq, String.toList_append, String.toList_append]
      exact hechoed.contents

/-- At the end of the input nothing is read, and the prompt is on the screen. -/
theorem readLine_of_usedUp (h : session.InMemory)
    (hunread : session.shell.machine.keys.unread = []) :
    ∃ later, readLine settings session = .ok none later ∧
      later.shell.environment = session.shell.environment ∧
      later.shell.machine.files = session.shell.machine.files ∧
      later.shell.machine.workDir = session.shell.machine.workDir ∧
      later.shell.machine.screen.contents = session.shell.machine.screen.contents
        ++ bytesOf (promptOf session.shell.environment) := by
  have hnone : session.desk.history.logs = none := h.logs
  obtain ⟨loaded, hload, -⟩ := History.ensureLoaded_of_no_logs hnone
  obtain ⟨desk, hread, hechoed⟩ := Editor.readLine_of_ended
    (promptOf session.shell.environment) hload h.ready hunread
  refine ⟨session.withDesk desk, ?_, rfl, hechoed.files, hechoed.workDir, ?_⟩
  · unfold readLine
    rw [get_bind]
    exact SessionM.atDesk_of_ok hread
  · rw [Editor.bytesOf_eq]
    exact hechoed.contents

/-! ## One round -/

/-- The session is left when, and only when, the last thing that happened was an exit. -/
theorem left_eq (outcomes : List Outcome) :
    (outcomes.getLast?.map Outcome.isExit).getD false
      = decide (outcomes.getLast? = some .exit) := by
  cases outcomes.getLast? with
  | none => rfl
  | some outcome =>
    rw [Option.map_some, Option.getD_some, Outcome.isExit]
    cases outcome <;> rfl

/-- A blank line runs nothing. -/
theorem runLine_of_empty {shell : Shell} (h : shell.machine.screen.NeverFails) :
    runLine setup "" shell = .ok [] { shell with machine := shell.machine.flushed } := by
  have hcommands : commandsOf "" = [] := by decide
  unfold runLine
  rw [hcommands, runCommands, bind_of_ok (pure_eq _), bind_of_ok (onMachine_flush h)]
  rfl

/-- Any other line is run; there is no log to put it into. -/
theorem round_of_line {line : String} {read : Session} {outcomes : List Outcome} {ran : Shell}
    (hread : readLine settings session = .ok (some line) read) (hline : ¬ line.isEmpty = true)
    (hlogs : read.history.logs = none) (hrun : runLine setup line read.shell = .ok outcomes ran) :
    round settings setup session
      = .ok (if outcomes.getLast? = some .exit then .over else .reading)
          { read with shell := ran } := by
  have hadvance : advance settings setup .reading session = .ok (.logging line) read := by
    rw [advance_of_line hread, if_neg hline]
  have hnone : read.desk.history.logs = none := hlogs
  have hpersist : advance settings setup (.logging line) read = .ok (.running line) read := by
    rw [advance, bind_of_ok (SessionM.atDesk_of_ok (History.persist_of_no_logs hnone line))]
    rfl
  unfold round
  rw [bind_of_ok hadvance]
  dsimp only
  rw [bind_of_ok hpersist, advance, bind_of_ok (SessionM.inShell_of_ok hrun), left_eq]
  by_cases hexit : outcomes.getLast? = some .exit
  · rw [if_pos hexit, decide_eq_true hexit]
    rfl
  · rw [if_neg hexit, decide_eq_false hexit]
    rfl

/-- **A round in which a line is typed** comes to the same as running the line. -/
theorem round_of_typed (h : session.InMemory) (hhost : setup.host = host)
    (htable : BlindTable host setup.builtins)
    (hunseen : session.shell.machine.keys.shared = false ∨ host.LeavesKeys)
    (hunread : session.shell.machine.keys.unread = bytesOf (text ++ "\n"))
    (htext : ∀ c ∈ text.toList, Printable c) (hfits : text.length ≤ max settings.maxLineLength 1) :
    ∃ later outcomes shell,
      round settings setup session
        = .ok (if outcomes.getLast? = some .exit then .over else .reading) later ∧
      runLine setup (finishLine text) session.shell = .ok outcomes shell ∧
      later.history.logs = none ∧
      Alike host session.shell.machine.screen.contents
        (session.shell.machine.screen.contents
          ++ bytesOf (promptOf session.shell.environment ++ text ++ "\n")) shell later.shell := by
  obtain ⟨read, hread, hlogs, halike⟩ := readLine_of_typed h hunseen hunread htext hfits
  generalize finishLine text = line at hread
  by_cases hempty : line.isEmpty = true
  · -- Nothing is run, and running the empty line does nothing but flush.
    rw [String.isEmpty_iff.mp hempty] at hread ⊢
    exact ⟨read, [], _, round_of_blank hread, runLine_of_empty h.ready.screen, hlogs,
      halike.flushed_left⟩
  · have hagree : Agree (Alike host _ _) False _ _ :=
      blind_runLine hhost htable line _ (likeness_alike host _ _) _ _ halike
    generalize hp : runLine setup line session.shell = r at hagree
    generalize hq : runLine setup line read.shell = s at hagree
    cases hagree with
    | error hno e => exact hno.elim
    | @ok outcomes shell ran halike =>
      exact ⟨{ read with shell := ran }, outcomes, shell, round_of_line hread hempty hlogs hq, rfl,
        hlogs, halike⟩

/-! ## The session -/

theorem replWithin_of_over {reads : Nat} {later : Session}
    (h : round settings setup session = .ok .over later) :
    replWithin settings setup (reads + 1) session = .ok true later := by
  rw [replWithin, bind_of_ok h, if_pos rfl]
  rfl

theorem replWithin_of_reading {reads : Nat} {later : Session}
    (h : round settings setup session = .ok .reading later) :
    replWithin settings setup (reads + 1) session = replWithin settings setup reads later := by
  rw [replWithin, bind_of_ok h, if_neg (by decide)]

/-- As many reads are made as there are bytes, and one more at the end of the input. -/
theorem repl_of_replWithin {reads : Nat} {later : Session}
    (hreads : session.shell.machine.keys.unread.length = reads)
    (h : replWithin settings setup (reads + 1) session = .ok true later) :
    repl settings setup session = .ok () later := by
  unfold repl
  rw [get_bind, hreads, bind_of_ok h]
  rfl

/-- **A session in which one line is typed does what running the line does.** It ends with the same
environment, in the same directory, with the same files. What it shows is the prompt, the line as it
was typed, what running the line shows, and another prompt unless the line asked to leave. -/
theorem repl_of_typed (hlogs : session.history.logs = none)
    (hscreen : session.shell.machine.screen.NeverFails)
    (hkeys : session.shell.machine.keys.failsAfter = none)
    (hunseen : session.shell.machine.keys.shared = false ∨ host.LeavesKeys)
    (hunread : session.shell.machine.keys.unread = bytesOf (text ++ "\n"))
    (htext : ∀ c ∈ text.toList, Printable c) (hfits : text.length ≤ max settings.maxLineLength 1) :
    ∃ later outcomes shell out,
      repl settings (setupOf settings host Builtin.table) session = .ok () later ∧
      runLine (setupOf settings host Builtin.table) (finishLine text) session.shell
        = .ok outcomes shell ∧
      later.shell.environment = shell.environment ∧
      later.shell.machine.workDir = shell.machine.workDir ∧
      later.shell.machine.files = shell.machine.files ∧
      shell.machine.screen.contents = session.shell.machine.screen.contents ++ out ∧
      later.shell.machine.screen.contents = session.shell.machine.screen.contents
        ++ bytesOf (promptOf session.shell.environment ++ text ++ "\n") ++ out
        ++ (if outcomes.getLast? = some .exit then []
          else bytesOf (promptOf shell.environment)) := by
  have hready : session.InMemory := ⟨⟨hscreen, hkeys, Nat.zero_le _⟩, hlogs⟩
  have hhost : (setupOf settings host Builtin.table).host = host := rfl
  obtain ⟨ran, outcomes, shell, hround, hrun, hlogs', halike⟩ :=
    round_of_typed hready hhost (blindTable_builtins host) hunseen hunread htext hfits
  obtain ⟨out, hshell, hran⟩ := halike.shown
  -- One byte at least is typed, so there is a second read if the session comes to it.
  have hreads : session.shell.machine.keys.unread.length = (bytesOf text).length + 1 := by
    rw [hunread, bytesOf_append, List.length_append]
    rfl
  by_cases hexit : outcomes.getLast? = some .exit
  · rw [if_pos hexit] at hround
    refine ⟨ran, outcomes, shell, out, repl_of_replWithin hreads (replWithin_of_over hround), hrun,
      halike.environment.symm, halike.workDir.symm, halike.files.symm, hshell, ?_⟩
    rw [if_pos hexit, List.append_nil]
    exact hran
  · rw [if_neg hexit] at hround
    have hready' : ran.InMemory :=
      ⟨⟨halike.right, halike.usedUp.failsAfter, Nat.zero_le _⟩, hlogs'⟩
    obtain ⟨later, hread, henvironment, hfiles, hworkDir, hcontents⟩ :=
      readLine_of_usedUp hready' halike.usedUp.unread
    have hrepl : repl settings (setupOf settings host Builtin.table) session = .ok () later := by
      refine repl_of_replWithin hreads ?_
      rw [replWithin_of_reading hround]
      exact replWithin_of_over (round_of_usedUp hread)
    refine ⟨later, outcomes, shell, out, hrepl, hrun, ?_, ?_, ?_, hshell, ?_⟩
    · rw [henvironment, halike.environment]
    · rw [hworkDir, halike.workDir]
    · rw [hfiles, halike.files]
    · rw [if_neg hexit, hcontents, hran, halike.environment]

/-! ### A line with two commands and a comment -/

/-- What a line comes to: its outcomes, and the screen and the environment after it. -/
def comesTo (setup : Setup) (line : String) : Shell → Option (List Outcome × Bytes × Environment) :=
  EStateM.run' do
    let outcomes ← runLine setup line
    let shell ← get
    return (outcomes, shell.machine.screen.contents, shell.environment)

theorem comesTo_of_ok {line : String} {outcomes : List Outcome} {shell later : Shell}
    (h : runLine setup line shell = .ok outcomes later) :
    comesTo setup line shell
      = some (outcomes, later.machine.screen.contents, later.environment) := by
  rw [comesTo]
  delta EStateM.run' EStateM.run
  rw [bind_of_ok h, get_bind, pure_eq]

/-- A new session in the root directory in which a line is typed. -/
def typing (line : String) : Session :=
  .start {} { Machine.boot .empty with keys := .ofBytes (bytesOf (line ++ "\n")) } []

/-- The blank in front of the line and its comment are echoed, and leave no trace otherwise. -/
theorem repl_of_typed_commands :
    ∃ later, repl {} (setupOf {} Standard.host Builtin.table) (typing " a=1; echo é # go")
        = .ok () later ∧
      later.shell.environment.get? "a" = some "1" ∧
      later.shell.machine.screen.contents = bytesOf "psh:/$  a=1; echo é # go\né\npsh:/$ " := by
  have hready : ∀ line : String, (typing line).shell.machine.screen.NeverFails ∧
      (typing line).shell.machine.keys = .ofBytes (bytesOf (line ++ "\n")) :=
    fun line => ⟨⟨rfl, rfl⟩, rfl⟩
  have hline : comesTo (setupOf {} Standard.host Builtin.table) (finishLine " a=1; echo é # go")
      (typing " a=1; echo é # go").shell = some ([.assignment, .builtin 0], bytesOf "é\n",
        ⟨.ofList [("a", "1")], bytesOf "/", false⟩) := by
    decide +kernel
  obtain ⟨later, outcomes, shell, out, hrepl, hrun, henvironment, -, -, hshell, hlater⟩ :=
    @repl_of_typed {} Standard.host (typing " a=1; echo é # go") " a=1; echo é # go" rfl
      (hready _).1 (by rw [(hready _).2]; rfl) (.inl (by rw [(hready _).2]; rfl))
      (by rw [(hready _).2]; rfl) (by simp [Printable]) (by decide +kernel)
  rw [comesTo_of_ok hrun, Option.some.injEq, Prod.mk.injEq, Prod.mk.injEq] at hline
  obtain ⟨houtcomes, hcontents, henv⟩ := hline
  have hblank : (typing " a=1; echo é # go").shell.machine.screen.contents = [] := rfl
  have hout : out = bytesOf "é\n" := by
    rw [hblank, List.nil_append] at hshell
    rw [← hshell, hcontents]
  have hlast : outcomes.getLast? ≠ some .exit := by
    rw [houtcomes]
    decide
  refine ⟨later, hrepl, ?_, ?_⟩
  · rw [henvironment, henv]
    decide +kernel
  · rw [hlater, hblank, hout, if_neg hlast, henv]
    decide +kernel

end Session

end LineShell
