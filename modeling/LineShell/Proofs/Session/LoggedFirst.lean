import LineShell.Proofs.Session.Rounds
/-!
Lines are logged before they are run.

In a session with two logs no command of a line is taken up before the line has been put behind both
of them, and a line that is blank leaves no trace. If a log cannot be opened the session ends there:
it says which log it was, nothing of the line is run, and both logs hold what they held. All this is
`Session.repl_logs_first`, for every input, every terminal and whatever the programs do to the files
in between.
-/

set_option autoImplicit false

namespace LineShell

/-- A text of blanks, or of blanks and a comment, is finished to the empty line. -/
theorem finishLine_of_blank {white : List Char} (hwhite : Text.White white)
    (comment : List Char) :
    finishLine (String.ofList white) = "" ∧
      finishLine (String.ofList (white ++ Line.commentMark :: comment)) = "" := by
  have hmark : Text.isWhite Line.commentMark = false := by decide
  have hstart : Text.trimStart (Line.commentMark :: comment) = Line.commentMark :: comment := by
    rw [Text.trimStart, List.dropWhile_cons_of_neg (by rw [hmark]; exact Bool.false_ne_true)]
  have hend : Text.trimEnd (Line.commentMark :: comment)
      = Line.commentMark :: Text.trimEnd comment := Text.trimEnd_append_cons [] comment hmark
  have hblank := Text.trimStart_of_white hwhite []
  rw [List.append_nil] at hblank
  have hwhite' : Text.trim white = [] := by
    rw [Text.trim, hblank]
    rfl
  have hcomment : Text.trim (white ++ Line.commentMark :: comment)
      = Line.commentMark :: Text.trimEnd comment := by
    rw [Text.trim, Text.trimStart_of_white hwhite, hstart, hend]
  constructor
  · rw [finishLine, String.toList_ofList, Line.finished, hwhite']
    rfl
  · rw [finishLine, String.toList_ofList, Line.finished, hcomment, Line.uncommented,
      if_pos ⟨rfl, rfl⟩]
    rfl

namespace Session

variable {settings : Settings} {setup : Setup} {s t read logged : Session} {logs : Logs}
  {line : String} {lines : List String}

/-- What is run of a line that was logged comes behind its entries. -/
theorem reaches_of_logged (htable : QuietTable setup.builtins)
    (hread : readLine settings t = .ok (some line) read) (hline : line ≠ "")
    (hpersist : SessionM.atDesk (History.persist line) read = .ok ⟨⟩ logged) :
    DoesSome (commandsOf line) logged.shell (endOf (round settings setup t)).shell := by
  have hruns := ends_runLine htable line logged.shell
  rw [round_of_logged hread hline hpersist, advance]
  cases hrun : runLine setup line logged.shell with
  | error cause shell =>
    rw [bind_of_error (SessionM.inShell_of_error hrun)]
    exact hruns.error _ _ hrun
  | ok outcomes shell =>
    rw [bind_of_ok (SessionM.inShell_of_ok hrun)]
    exact (hruns.ok _ _ hrun).1

/-- A session that stopped at a log: it says which one, has done nothing since the line was read,
and has written to no file. -/
structure Refused (logs : Logs) (path : Path) (cause : Cause) (t read : Session)
    (result : EStateM.Result SessionError Session Unit) : Prop where
  fails : ∃ last, result = .error (.historyLog path cause) last
  deeds : (endOf result).shell.machine.deeds = t.shell.machine.deeds
  files : read.shell.machine.files.Spared (endOf result).shell.machine.files
    read.shell.machine.base logs.memory

/-- A session that logged a line: it has done nothing else since the line was read, and the line is
behind both logs. -/
structure Logged (logs : Logs) (line : String) (memory session : Place) (t read logged : Session) :
    Prop where
  inMemory : read.shell.machine.files.Names read.shell.machine.base logs.memory memory
  inSession : read.shell.machine.files.Names read.shell.machine.base logs.session session
  deeds : logged.shell.machine.deeds = t.shell.machine.deeds
    ++ [.logged memory (History.entryOf line), .logged session (History.entryOf line)]
  files : memory ≠ session → read.shell.machine.files.PutBehind logged.shell.machine.files memory
    session (History.entryOf line)

/-- **Where a log is refused the session ends.** -/
theorem refused_of_opening (htable : QuietTable setup.builtins) {path : Path} {cause : Cause}
    {files : FileTree} (hlogs : s.history.logs = some logs)
    (hrounds : Rounds settings setup s lines t)
    (hread : readLine settings t = .ok (some line) read) (hline : line ≠ "")
    (hopening : read.shell.machine.opening logs = .refused path cause files) :
    Refused logs path cause t read (repl settings setup s) := by
  obtain ⟨hcalm, -⟩ := (calm_readLine settings t).ok _ _ hread
  have hlogs' : read.desk.history.logs = some logs :=
    hcalm.logs.trans ((hrounds.reaches htable).2.trans hlogs)
  have hopening' : read.desk.machine.opening logs = .refused path cause files := hopening
  have hround : round settings setup t = .error (.historyLog path cause) _ :=
    round_of_unlogged hread hline
      (SessionM.atDesk_of_error (History.persist_of_refused line hlogs' hopening'))
  have hlast : Last settings setup t := by
    intro u hu
    rw [hround] at hu
    cases hu
  have hrepl := repl_eq_last (shrinks_of_quiet settings htable) hrounds hlast
  rw [hround] at hrepl
  rw [hrepl]
  refine ⟨⟨_, rfl⟩, ?_, Machine.spared_of_refused hopening⟩
  have hdeeds := hcalm.reaches.deeds_eq
  rw [List.append_nil] at hdeeds
  exact hdeeds

/-- **Where both logs are open the line is logged.** -/
theorem logged_of_opening (htable : QuietTable setup.builtins) {memory session : Place}
    {files : FileTree} (hlogs : s.history.logs = some logs)
    (hrounds : Rounds settings setup s lines t)
    (hread : readLine settings t = .ok (some line) read)
    (hopening : read.shell.machine.opening logs = .opened memory session files)
    (hmemory : files.isFullAt memory = false) (hsession : files.isFullAt session = false) :
    ∃ logged, SessionM.atDesk (History.persist line) read = .ok ⟨⟩ logged ∧
      Logged logs line memory session t read logged := by
  obtain ⟨hcalm, -⟩ := (calm_readLine settings t).ok _ _ hread
  have hlogs' : read.desk.history.logs = some logs :=
    hcalm.logs.trans ((hrounds.reaches htable).2.trans hlogs)
  have hopening' : read.desk.machine.opening logs = .opened memory session files := hopening
  obtain ⟨hfirst, hsecond⟩ := Machine.names_of_opened hopening
  refine ⟨_, SessionM.atDesk_of_ok
    (History.persist_of_opened line hlogs' hopening' hmemory hsession), hfirst, hsecond, ?_, ?_⟩
  · have hdeeds : read.desk.machine.deeds = t.desk.machine.deeds := by
      rw [hcalm.reaches.deeds_eq, List.append_nil]
    refine (Machine.deeds_of_journal (m := { read.desk.machine with
      journal := .logged memory (History.entryOf line) :: read.desk.machine.journal })
      (.logged session (History.entryOf line)) rfl).trans ?_
    rw [Machine.deeds_of_journal (m := read.desk.machine)
      (.logged memory (History.entryOf line)) rfl, hdeeds, List.append_assoc]
    rfl
  · intro hne
    exact Machine.putBehind_of_opened hopening hne (History.entryOf line)

/-- **A line is logged before it is run, in both logs or in none.** A run with two logs is some
rounds and a last one. Its journal tells for each line, in the order in which they were read, first
the entries in both logs and then the commands that were taken up; a line of blanks or of a comment
only leaves nothing. When a line has been read and a log cannot be opened, the run fails with the
path of that log; when both can be opened and take what is written, the line is put once behind each
of them, and its commands come after that. -/
theorem repl_logs_first (settings : Settings) (hlogs : s.history.logs = some logs)
    (htable : QuietTable setup.builtins) :
    (∃ lines t deeds done, Rounds settings setup s lines t ∧ Last settings setup t ∧
      repl settings setup s = closed (round settings setup t) ∧
      Chronicle (some logs) lines deeds ∧ Doing settings t done ∧
      (endOf (repl settings setup s)).shell.machine.deeds
        = s.shell.machine.deeds ++ (deeds ++ done)) ∧
    (∀ white comment : List Char, Text.White white → finishLine (String.ofList white) = "" ∧
      finishLine (String.ofList (white ++ Line.commentMark :: comment)) = "") ∧
    ∀ lines t line read, Rounds settings setup s lines t →
      readLine settings t = .ok (some line) read →
      (line = "" → round settings setup t = .ok .reading read ∧
        read.shell.machine.files = t.shell.machine.files) ∧
      (line ≠ "" → match read.shell.machine.opening logs with
        | .refused path cause _ => Refused logs path cause t read (repl settings setup s)
        | .opened memory session files =>
          files.isFullAt memory = false → files.isFullAt session = false →
            ∃ logged, SessionM.atDesk (History.persist line) read = .ok ⟨⟩ logged ∧
              Logged logs line memory session t read logged ∧
              ∃ count, (endOf (round settings setup t)).shell.machine.deeds
                = logged.shell.machine.deeds ++ dispatches (commandsOf line) count) := by
  refine ⟨?_, fun white comment hwhite => finishLine_of_blank hwhite comment, ?_⟩
  · obtain ⟨lines, t, deeds, done, hrounds, hlast, hrepl, hdeeds, hdone, hreach⟩ :=
      repl_reaches settings htable s
    rw [hlogs] at hdeeds
    exact ⟨lines, t, deeds, done, hrounds, hlast, hrepl, hdeeds, hdone, hreach.deeds_eq⟩
  · intro lines t line read hrounds hread
    refine ⟨?_, fun hline => ?_⟩
    · rintro rfl
      obtain ⟨hcalm, -⟩ := (calm_readLine settings t).ok _ _ hread
      exact ⟨round_of_blank hread, hcalm.place.files⟩
    · cases hopening : read.shell.machine.opening logs with
      | refused path cause files =>
        exact refused_of_opening htable hlogs hrounds hread hline hopening
      | opened memory session files =>
        intro hmemory hsession
        obtain ⟨logged, hpersist, hlogged⟩ :=
          logged_of_opening htable hlogs hrounds hread hopening hmemory hsession
        obtain ⟨count, hreach⟩ := reaches_of_logged htable hread hline hpersist
        exact ⟨logged, hpersist, hlogged, count, hreach.deeds_eq⟩

/-! ### A session that loses a log -/

/-- A session with one log in a directory. A program is run in it that removes every file. -/
def losing : Session :=
  let files := (FileTree.empty.add (bytesOf "d") [] (.dir 1 .all)).add (bytesOf "x") []
    (.file [] .all)
  let machine := { Machine.boot files with keys := .ofBytes (bytesOf "/x # go\na=1\n") }
  .start { logs := some ⟨bytesOf "/memory", bytesOf "/d/session"⟩ } machine []

/-- Every program removes every file. -/
def razing : Setup := setupOf {} ⟨fun _ _ => some ⟨.code 0, [], [], .empty, 0⟩⟩ Builtin.table

/-- The first line is logged and run. The second one is neither, as its log cannot be opened. -/
theorem repl_logs_first_losing :
    (∃ last, repl {} razing losing = .error (.historyLog (bytesOf "/d/session") .missing) last) ∧
    ∃ lines t deeds done, Rounds {} razing losing lines t ∧
      Chronicle (some ⟨bytesOf "/memory", bytesOf "/d/session"⟩) lines deeds ∧
      Doing {} t done ∧
      deeds ++ done = [.logged [bytesOf "memory"] (bytesOf "/x\n"),
        .logged [bytesOf "session", bytesOf "d"] (bytesOf "/x\n"), .dispatched ["/x"]] := by
  have hvalue : (match repl {} razing losing with
      | .error (.historyLog path cause) last => some (path, cause, last.shell.machine.deeds)
      | _ => none) = some (bytesOf "/d/session", .missing,
        [.logged [bytesOf "memory"] (bytesOf "/x\n"),
          .logged [bytesOf "session", bytesOf "d"] (bytesOf "/x\n"), .dispatched ["/x"]]) := by
    decide +kernel
  obtain ⟨⟨lines, t, deeds, done, hrounds, -, -, hchronicle, hdoing, hdeeds⟩, -⟩ :=
    @repl_logs_first razing losing ⟨bytesOf "/memory", bytesOf "/d/session"⟩ {} rfl
      quietTable_builtins
  split at hvalue
  · next path cause last hrepl =>
    obtain ⟨rfl, rfl, hlast⟩ : path = bytesOf "/d/session" ∧ cause = .missing ∧ _ := by
      rw [Option.some.injEq, Prod.mk.injEq, Prod.mk.injEq] at hvalue
      exact hvalue
    refine ⟨⟨last, hrepl⟩, lines, t, deeds, done, hrounds, hchronicle, hdoing, ?_⟩
    rw [hrepl] at hdeeds
    exact hdeeds.symm.trans hlast
  · cases hvalue

end Session

end LineShell
