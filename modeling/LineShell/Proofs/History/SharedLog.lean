import LineShell.Proofs.Editor.Accepted
import LineShell.Proofs.History.Persisting
import LineShell.Proofs.Session.Acting
import Mathlib.Logic.Function.Basic
/-!
Sessions that share a log.

Any number of sessions take turns on one file tree, each turn one stage of one session, in any order
(`World.run`). Whatever is typed, every line that comes to be logged survives in a log, so each turn
that logs a line makes the log hold that line more, and no other turn changes what it holds
(`World.Faithful.step`). A history that is loaded from the log then holds the last of its lines
(`World.entries_of_shared_log`).
-/

set_option autoImplicit false

namespace LineShell

/-! ## Turns -/

/-- One of the sessions that share a log. -/
structure Seat where
  settings : Settings
  setup : Setup
  session : Session
  stage : Session.Stage

namespace Seat

/-- The session on the files as they are now, whatever they were at its last turn. -/
def onFiles (seat : Seat) (files : FileTree) : Session :=
  let machine := { seat.session.shell.machine with files }
  { seat.session with shell := { seat.session.shell with machine } }

/-- **One turn:** the next stage of the session. A session that fails is over. -/
def next (seat : Seat) (files : FileTree) : Seat :=
  match Session.advance seat.settings seat.setup seat.stage (seat.onFiles files) with
  | .ok stage session => { seat with session, stage }
  | .error _ session => { seat with session, stage := .over }

/-- The directory that the session is in. -/
def base (seat : Seat) (files : FileTree) : Option Place :=
  files.placeOf seat.session.shell.machine.workDir.place seat.session.shell.machine.workDir.number

/-- The line that the next turn logs, if it does. -/
def logs (seat : Seat) : List String :=
  match seat.stage with
  | .logging line => [line]
  | _ => []

end Seat

/-- Sessions on one file tree. -/
structure World (ι : Type) where
  files : FileTree
  seats : ι → Seat

namespace World

variable {ι : Type} [DecidableEq ι]

/-- The world after a turn of one session. -/
def step (w : World ι) (i : ι) : World ι :=
  ⟨((w.seats i).next w.files).session.shell.machine.files,
    Function.update w.seats i ((w.seats i).next w.files)⟩

/-- The world after some turns. -/
def run (w : World ι) (schedule : List ι) : World ι := schedule.foldl step w

/-- The lines that are logged on the way, in order. -/
def logged (w : World ι) : List ι → List String
  | [] => []
  | i :: schedule => (w.seats i).logs ++ (w.step i).logged schedule

/-- All sessions have the file at a place for their long-lived log. -/
def Shares (w : World ι) (log : Place) : Prop :=
  ∀ i, ∃ logs, (w.seats i).session.history.logs = some logs ∧
    w.files.Names ((w.seats i).base w.files) logs.memory log

/-- **What is asked of a turn.** A line is logged without a failure, and the log of the session is
another file than the shared one. Commands leave the shared log alone, and the ways to it. -/
def Allows (w : World ι) (log : Place) (i : ι) : Prop :=
  match (w.seats i).stage with
  | .logging line =>
    ((w.seats i).next w.files).stage = .running line ∧
      ∀ logs, (w.seats i).session.history.logs = some logs →
        ¬ w.files.Names ((w.seats i).base w.files) logs.session log
  | .running _ => (w.step i).files.node? log = w.files.node? log ∧ (w.step i).Shares log
  | _ => True

/-- What is asked of every turn of a schedule. -/
def Follows (w : World ι) (log : Place) : List ι → Prop
  | [] => True
  | i :: schedule => w.Allows log i ∧ (w.step i).Follows log schedule

end World

/-! ## One turn of one session -/

namespace Seat

variable {seat : Seat} {files : FileTree}

/-- A session whose lines survive in a log. -/
structure Sound (seat : Seat) : Prop where
  lines : seat.session.history.FeedFree
  logging : ∀ line, seat.stage = .logging line → Loggable line

theorem next_of_ends {holds : Session.Stage → Session → Prop} {broken : Session → Prop}
    (h : Ends (Session.advance seat.settings seat.setup seat.stage) (seat.onFiles files) holds
      broken) :
    (∃ stage session, seat.next files = { seat with session, stage } ∧ holds stage session) ∨
      ∃ session, seat.next files = { seat with session, stage := .over } ∧ broken session := by
  unfold next
  cases hrun : Session.advance seat.settings seat.setup seat.stage (seat.onFiles files) with
  | ok stage session => exact .inl ⟨stage, session, rfl, h.ok stage session hrun⟩
  | error e session => exact .inr ⟨session, rfl, h.error e session hrun⟩

/-- **Reading a line** leaves the files alone, and a line that is to be logged survives in a log. -/
theorem next_of_reading (files : FileTree) (hsound : seat.Sound) (hstage : seat.stage = .reading) :
    (seat.onFiles files).desk.Undisturbed (seat.next files).session.desk ∧
      (seat.next files).Sound := by
  have hread : Ends (Session.advance seat.settings seat.setup .reading) (seat.onFiles files)
      (fun stage s => (seat.onFiles files).desk.Undisturbed s.desk ∧
        ∀ line, stage = .logging line → Loggable line)
      fun s => (seat.onFiles files).desk.Undisturbed s.desk := by
    unfold Session.advance Session.readLine
    refine Ends.bind (ends_get_bind.2 (SessionM.ends_atDesk
      (Editor.gives_readLine seat.settings.maxLineLength hsound.lines))) ?_
    rintro line s ⟨hundisturbed, hline⟩
    cases line with
    | none => exact ends_pure ⟨hundisturbed, fun line h => nomatch h⟩
    | some line =>
      refine ends_pure ⟨hundisturbed, fun other h => ?_⟩
      cases hempty : line.isEmpty with
      | true =>
        rw [hempty] at h
        cases h
      | false =>
        rw [hempty] at h
        cases h
        exact hline line rfl hempty
  rw [← hstage] at hread
  rcases next_of_ends hread with ⟨stage, session, hnext, hundisturbed, hline⟩ |
    ⟨session, hnext, hundisturbed⟩
  · rw [hnext]
    exact ⟨hundisturbed, ⟨hundisturbed.lines hsound.lines, hline⟩⟩
  · rw [hnext]
    exact ⟨hundisturbed, ⟨hundisturbed.lines hsound.lines, fun line h => nomatch h⟩⟩

/-- A session that is over stays as it is. -/
theorem next_of_over (files : FileTree) (hsound : seat.Sound) (hstage : seat.stage = .over) :
    (seat.onFiles files).desk.Undisturbed (seat.next files).session.desk ∧
      (seat.next files).Sound := by
  have hnext : seat.next files = { seat with session := seat.onFiles files } := by
    unfold next
    rw [hstage]
    rfl
  rw [hnext]
  refine ⟨.refl _, ⟨hsound.lines, fun line h => ?_⟩⟩
  rw [hstage] at h
  cases h

/-- **Logging a line** that succeeds is persisting it. -/
theorem next_of_logging {line : String} (hstage : seat.stage = .logging line)
    (hok : (seat.next files).stage = .running line) :
    History.persist line (seat.onFiles files).desk = .ok ⟨⟩ (seat.next files).session.desk := by
  have hlog : Ends (Session.advance seat.settings seat.setup (.logging line)) (seat.onFiles files)
      (fun _ s => History.persist line (seat.onFiles files).desk = .ok ⟨⟩ s.desk)
      fun _ => True := by
    unfold Session.advance
    refine Ends.bind (SessionM.ends_atDesk ⟨fun _ _ h => h, fun _ _ _ => trivial⟩) ?_
    exact fun _ s h => ends_pure h
  rw [← hstage] at hlog
  rcases next_of_ends hlog with ⟨stage, session, hnext, hpersist⟩ | ⟨session, hnext, -⟩
  · rw [hnext]
    exact hpersist
  · rw [hnext] at hok
    cases hok

/-- **Running a line** leaves the history alone. -/
theorem next_of_running {line : String} (files : FileTree) (hsound : seat.Sound)
    (hstage : seat.stage = .running line) :
    (seat.next files).session.history = seat.session.history ∧ (seat.next files).Sound := by
  have hrun : Ends (Session.advance seat.settings seat.setup (.running line)) (seat.onFiles files)
      (fun stage s => s.history = seat.session.history ∧ ∀ other, stage ≠ .logging other)
      fun s => s.history = seat.session.history := by
    unfold Session.advance
    refine Ends.bind (SessionM.ends_inShell (runLine seat.setup line) (seat.onFiles files)) ?_
    intro outcomes s hhistory
    refine ends_pure ⟨hhistory, fun other => ?_⟩
    split_ifs <;> exact fun h => nomatch h
  rw [← hstage] at hrun
  rcases next_of_ends hrun with ⟨stage, session, hnext, hhistory, hstage'⟩ |
    ⟨session, hnext, hhistory⟩
  · rw [hnext]
    refine ⟨hhistory, ⟨?_, fun other h => absurd h (hstage' other)⟩⟩
    rw [hhistory]
    exact hsound.lines
  · rw [hnext]
    refine ⟨hhistory, ⟨?_, fun other h => nomatch h⟩⟩
    rw [hhistory]
    exact hsound.lines

end Seat

/-! ## Turns of many sessions -/

namespace World

variable {ι : Type} [DecidableEq ι] {w : World ι} {log : Place} {data : Bytes}

theorem seats_step_self (w : World ι) (i : ι) :
    (w.step i).seats i = (w.seats i).next w.files := Function.update_self i _ _

theorem seats_step_of_ne (w : World ι) {i j : ι} (h : j ≠ i) :
    (w.step i).seats j = w.seats j := Function.update_of_ne h _ _

theorem allows_of_reading {i : ι} (hstage : (w.seats i).stage = .reading) : w.Allows log i := by
  unfold Allows
  rw [hstage]
  trivial

theorem allows_of_logging {i : ι} (line : String) (logs : Logs)
    (hstage : (w.seats i).stage = .logging line)
    (hok : ((w.seats i).next w.files).stage = .running line)
    (hlogs : (w.seats i).session.history.logs = some logs)
    (hapart : ¬ w.files.Names ((w.seats i).base w.files) logs.session log) : w.Allows log i := by
  unfold Allows
  rw [hstage]
  refine ⟨hok, fun other hother => ?_⟩
  rw [hlogs] at hother
  cases hother
  exact hapart

theorem allows_of_running {i : ι} (line : String) (hstage : (w.seats i).stage = .running line)
    (hnode : (w.step i).files.node? log = w.files.node? log) (hshares : (w.step i).Shares log) :
    w.Allows log i := by
  unfold Allows
  rw [hstage]
  exact ⟨hnode, hshares⟩

/-- **What holds between turns.** The log holds some bytes and ends where a line ends, every session
has it for its long-lived log, and what the sessions are about to log survives in it. -/
structure Faithful (w : World ι) (log : Place) (data : Bytes) : Prop where
  holds : w.files.HoldsLog log data
  settled : Settled data
  shares : w.Shares log
  sound : ∀ i, (w.seats i).Sound

/-- The sessions still share the log after a turn that keeps the names of files, the directory of
the session and its logs. -/
theorem Shares.step (h : w.Shares log) (i : ι) (hkeeps : w.files.KeepsNames (w.step i).files)
    (hdir : ((w.seats i).next w.files).session.shell.machine.workDir
      = (w.seats i).session.shell.machine.workDir)
    (hlogs : ((w.seats i).next w.files).session.history.logs = (w.seats i).session.history.logs) :
    (w.step i).Shares log := by
  intro j
  obtain ⟨logs, hj, hnames⟩ := h j
  refine ⟨logs, ?_, ?_⟩
  · by_cases hji : j = i
    · subst hji
      rw [seats_step_self, hlogs, hj]
    · rw [seats_step_of_ne w hji, hj]
  · have hbase : ((w.step i).seats j).base (w.step i).files = (w.seats j).base w.files := by
      by_cases hji : j = i
      · subst hji
        rw [seats_step_self, Seat.base, hdir, hkeeps.placeOf]
        rfl
      · rw [seats_step_of_ne w hji, Seat.base, hkeeps.placeOf]
        rfl
    rw [hbase, hkeeps.names]
    exact hnames

theorem sound_step (h : ∀ j, (w.seats j).Sound) (i : ι) (hi : ((w.seats i).next w.files).Sound) :
    ∀ j, ((w.step i).seats j).Sound := by
  intro j
  by_cases hji : j = i
  · subst hji
    rw [seats_step_self]
    exact hi
  · rw [seats_step_of_ne w hji]
    exact h j

/-- A turn that leaves the files alone changes nothing about the log. -/
theorem Faithful.step_of_undisturbed (h : w.Faithful log data) (i : ι)
    (hdesk : ((w.seats i).onFiles w.files).desk.Undisturbed
      ((w.seats i).next w.files).session.desk)
    (hsound : ((w.seats i).next w.files).Sound) : (w.step i).Faithful log data := by
  have hfiles : (w.step i).files = w.files := hdesk.machine.files
  have hkeeps : w.files.KeepsNames (w.step i).files := by
    rw [hfiles]
    exact .refl _
  refine ⟨?_, h.settled, ?_, sound_step h.sound i hsound⟩
  · rw [hfiles]
    exact h.holds
  · exact h.shares.step i hkeeps hdesk.machine.workDir hdesk.logs

/-- **One turn.** The log holds the line that was logged behind what it held, and nothing else
changes what it holds. -/
theorem Faithful.step (h : w.Faithful log data) (i : ι) (hallows : w.Allows log i) :
    ∃ data', (w.step i).Faithful log data' ∧
      History.linesOfLog data' = History.linesOfLog data ++ (w.seats i).logs := by
  unfold Allows at hallows
  unfold Seat.logs
  cases hstage : (w.seats i).stage with
  | reading =>
    obtain ⟨hdesk, hsound⟩ := Seat.next_of_reading w.files (h.sound i) hstage
    exact ⟨data, h.step_of_undisturbed i hdesk hsound, (List.append_nil _).symm⟩
  | «over» =>
    obtain ⟨hdesk, hsound⟩ := Seat.next_of_over w.files (h.sound i) hstage
    exact ⟨data, h.step_of_undisturbed i hdesk hsound, (List.append_nil _).symm⟩
  | logging line =>
    rw [hstage] at hallows
    obtain ⟨hok, hapart⟩ := hallows
    obtain ⟨logs, hlogs, hnames⟩ := h.shares i
    have hpersist := Seat.next_of_logging hstage hok
    obtain ⟨hholds, hkeeps, hdir, hhistory⟩ := History.holdsLog_of_persist
      ((w.seats i).onFiles w.files).desk hlogs hnames (hapart logs hlogs) h.holds hpersist
    have hloggable : Loggable line := (h.sound i).logging line hstage
    refine ⟨data ++ bytesOf (line ++ "\n"), ⟨hholds, settled_entry data line, ?_, ?_⟩,
      History.linesOfLog_entry h.settled hloggable⟩
    · exact h.shares.step i hkeeps hdir (congrArg History.logs hhistory)
    · refine sound_step h.sound i ⟨?_, fun other hother => ?_⟩
      · rw [show ((w.seats i).next w.files).session.history = _ from hhistory]
        exact (h.sound i).lines
      · rw [hok] at hother
        cases hother
  | running line =>
    rw [hstage] at hallows
    obtain ⟨hnode, hshares⟩ := hallows
    obtain ⟨-, hsound⟩ := Seat.next_of_running w.files (h.sound i) hstage
    refine ⟨data, ⟨?_, h.settled, hshares, sound_step h.sound i hsound⟩,
      (List.append_nil _).symm⟩
    have hholds := h.holds
    unfold FileTree.HoldsLog at hholds ⊢
    rwa [hnode]

/-- **Many turns.** The log holds all lines that were logged behind what it held at first. -/
theorem Faithful.run (h : w.Faithful log data) {schedule : List ι}
    (hfollows : w.Follows log schedule) :
    ∃ data', (w.run schedule).Faithful log data' ∧
      History.linesOfLog data' = History.linesOfLog data ++ w.logged schedule := by
  induction schedule generalizing w data with
  | nil => exact ⟨data, h, (List.append_nil _).symm⟩
  | cons i schedule ih =>
    obtain ⟨data₁, hfaithful₁, hlines₁⟩ := h.step i hfollows.1
    obtain ⟨data₂, hfaithful₂, hlines₂⟩ := ih hfaithful₁ hfollows.2
    refine ⟨data₂, hfaithful₂, ?_⟩
    rw [hlines₂, hlines₁, logged, List.append_assoc]

/-- Sessions that have just been started, with a log that they share. -/
structure Fresh (w : World ι) (log : Place) : Prop where
  start : ∀ i, ∃ capacity logs, (w.seats i).session.history = .start capacity (some logs)
  reading : ∀ i, (w.seats i).stage = .reading
  shares : w.Shares log

omit [DecidableEq ι] in
theorem Fresh.faithful (h : w.Fresh log) (hholds : w.files.HoldsLog log data)
    (hsettled : Settled data) : w.Faithful log data := by
  refine ⟨hholds, hsettled, h.shares, fun i => ⟨?_, fun line hline => ?_⟩⟩
  · obtain ⟨capacity, logs, hstart⟩ := h.start i
    rw [hstart]
    exact History.feedFree_start capacity (some logs)
  · rw [h.reading i] at hline
    cases hline

end World

/-! ## Loading the log again -/

/-- What loading does to a history that is new. -/
theorem History.ensureLoaded_start (machine : Machine) (capacity : Nat) (logs : Logs) :
    ensureLoaded ⟨machine, start capacity (some logs)⟩ =
      let marked := { start capacity (some logs) with loaded := true }
      match machine.files.read machine.base logs.memory with
      | .ok bytes => .ok ⟨⟩ ⟨machine, marked.recordAll (linesOfLog bytes)⟩
      | .error .missing => .ok ⟨⟩ ⟨machine, marked⟩
      | .error cause => .error (.historyLog logs.memory cause) ⟨machine, marked⟩ := by
  rw [ensureLoaded_eq]
  rfl

/-- **Loading a log** gives the last of its lines to a history that is new. -/
theorem History.entries_of_holdsLog {machine : Machine} {logs : Logs} {log : Place} {data : Bytes}
    (capacity : Nat) (hnames : machine.files.Names machine.base logs.memory log)
    (hholds : machine.files.HoldsLog log data) :
    ∃ loaded, ensureLoaded ⟨machine, start capacity (some logs)⟩ = .ok ⟨⟩ loaded ∧
      loaded.history.entries = (linesOfLog data).rtake (max capacity 1) := by
  rw [ensureLoaded_start, FileTree.read_of_names machine.base_stands hnames]
  rcases hholds with ⟨hnone, rfl⟩ | ⟨rights, hfile, hright⟩
  · rw [hnone]
    refine ⟨_, rfl, ?_⟩
    rw [linesOfLog_nil, List.rtake_nil]
    rfl
  · rw [hfile]
    dsimp only [FileTree.contents]
    rw [if_pos hright]
    refine ⟨_, rfl, ?_⟩
    have hwithin : Within { start capacity (some logs) with loaded := true } :=
      ⟨(within_start capacity (some logs)).positive, Nat.zero_le _⟩
    exact entries_recordAll hwithin (linesOfLog data)

/-- **History survives the log.** However sessions that share a log take turns, and whatever is
typed in them, a new history that is loaded from the log holds the last of the lines that were in it
at first and of those that were logged, in the order in which they were: none is altered, split,
merged, dropped or there twice. -/
theorem World.entries_of_shared_log {ι : Type} [DecidableEq ι] {w : World ι} {log : Place}
    {initial : Bytes} {schedule : List ι} (hfresh : w.Fresh log)
    (hinitial : w.files.HoldsLog log initial) (hsettled : Settled initial)
    (hfollows : w.Follows log schedule) (machine : Machine) (logs : Logs) (capacity : Nat)
    (hfiles : machine.files = (w.run schedule).files)
    (hnames : machine.files.Names machine.base logs.memory log) :
    ∃ loaded,
      History.ensureLoaded ⟨machine, .start capacity (some logs)⟩ = .ok ⟨⟩ loaded ∧
      loaded.history.entries
        = (History.linesOfLog initial ++ w.logged schedule).rtake (max capacity 1) := by
  obtain ⟨data, hfaithful, hlines⟩ := (hfresh.faithful hinitial hsettled).run hfollows
  have hholds : machine.files.HoldsLog log data := by
    rw [hfiles]
    exact hfaithful.holds
  rw [← hlines]
  exact History.entries_of_holdsLog capacity hnames hholds

/-! ### Two sessions -/

/-- A new session that shares a log, and what is typed in it. -/
def Seat.typing (own keys : String) : Seat :=
  let settings : Settings := { logs := some ⟨bytesOf "/log", bytesOf own⟩ }
  let machine := { Machine.boot .empty with keys := .ofBytes (bytesOf keys) }
  ⟨settings, ⟨⟨fun _ _ => none⟩, [], .argument⟩, .start settings machine [], .reading⟩

/-- Two sessions on a log of one line. The second one recalls that line and types behind it. -/
def World.pair : World Bool where
  files := FileTree.empty.add (bytesOf "log") [] (.file (bytesOf "old\n") .plain)
  seats
    | true => .typing "/first" "a=1\n"
    | false => .typing "/second" "\x1b[A=2\n"

/-- The second session is the first one to log its line; then the first one logs and runs its own. A
history of two lines has no room for the line that was there before. -/
theorem World.entries_of_pair :
    ∃ loaded,
      History.ensureLoaded ⟨.boot (pair.run [true, false, false, true, true]).files,
        .start 2 (some ⟨bytesOf "/log", bytesOf "/third"⟩)⟩ = .ok ⟨⟩ loaded ∧
      loaded.history.entries = ["old=2", "a=1"] := by
  have hshares : ∀ w : World Bool,
      (w.seats true).session.history.logs = some ⟨bytesOf "/log", bytesOf "/first"⟩ →
      (w.seats false).session.history.logs = some ⟨bytesOf "/log", bytesOf "/second"⟩ →
      w.files.Names ((w.seats true).base w.files) (bytesOf "/log") [bytesOf "log"] →
      w.files.Names ((w.seats false).base w.files) (bytesOf "/log") [bytesOf "log"] →
      w.Shares [bytesOf "log"] := by
    intro w htrue hfalse hnames hnames' i
    cases i with
    | true => exact ⟨_, htrue, hnames⟩
    | false => exact ⟨_, hfalse, hnames'⟩
  have hfresh : pair.Fresh [bytesOf "log"] := by
    refine ⟨fun i => ?_, fun i => ?_, hshares pair rfl rfl (by decide +kernel) (by decide +kernel)⟩
    · cases i <;> exact ⟨_, _, rfl⟩
    · cases i <;> rfl
  have hinitial : pair.files.HoldsLog [bytesOf "log"] (bytesOf "old\n") :=
    .inr ⟨.plain, by decide +kernel, rfl⟩
  have hsecond : (pair.run [true, false]).Allows [bytesOf "log"] false :=
    allows_of_logging "old=2" ⟨bytesOf "/log", bytesOf "/second"⟩ (by decide +kernel)
      (by decide +kernel) (by decide +kernel) (by decide +kernel)
  have hfirst : (pair.run [true, false, false]).Allows [bytesOf "log"] true :=
    allows_of_logging "a=1" ⟨bytesOf "/log", bytesOf "/first"⟩ (by decide +kernel)
      (by decide +kernel) (by decide +kernel) (by decide +kernel)
  have hrunning : (pair.run [true, false, false, true]).Allows [bytesOf "log"] true :=
    allows_of_running "a=1" (by decide +kernel) (by decide +kernel)
      (hshares _ (by decide +kernel) (by decide +kernel) (by decide +kernel) (by decide +kernel))
  have hfollows : pair.Follows [bytesOf "log"] [true, false, false, true, true] :=
    ⟨allows_of_reading rfl, allows_of_reading (by decide +kernel), hsecond, hfirst, hrunning,
      trivial⟩
  obtain ⟨loaded, hloaded, hentries⟩ := entries_of_shared_log hfresh hinitial
    (.inr ⟨bytesOf "old", rfl⟩) hfollows
    (.boot (pair.run [true, false, false, true, true]).files)
    ⟨bytesOf "/log", bytesOf "/third"⟩ 2 rfl (by decide +kernel)
  refine ⟨loaded, hloaded, hentries.trans ?_⟩
  decide +kernel

end LineShell
