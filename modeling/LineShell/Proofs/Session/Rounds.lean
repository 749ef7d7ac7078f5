import LineShell.Proofs.Editor.Waiting
import LineShell.Proofs.History.Opening
import LineShell.Proofs.Session.Acting
/-!
A session is one round after the other.

A round can end in six ways (`Session.round_cases`). As a round that leads to another one has taken
a byte of the input, and nothing ever puts one back, every run of `Session.repl` is some rounds and
a last one, whose result is that of the run (`Session.repl_eq_last`). What the rounds did can be
read off the journal: the deeds of a line are its entries in the logs and then its commands
(`Session.Chronicle`, `Session.repl_reaches`).
-/

set_option autoImplicit false

namespace LineShell

namespace History

/-- **The entries of a line:** one in each log, or none if there are no logs. -/
inductive Entries (line : String) : Option Logs → List Event → Prop where
  | none : Entries line none []
  | both (logs : Logs) (memory session : Place) : Entries line (some logs)
      [.logged memory (entryOf line), .logged session (entryOf line)]

end History

namespace Effect

/-- Opening a file is nothing that the terminal sees. -/
theorem quiet_openFile (path : Path) : Quiet id (openFile path) := by
  intro m
  unfold openFile
  refine ends_get_bind.2 ?_
  split
  · next place files _ =>
    exact ends_of_ok rfl (Machine.Step.aside m files m.workDir m.errors).reaches
  · exact ends_of_error rfl (.refl m)

/-- An entry is made, or the log takes none. -/
theorem ends_append (place : Place) (bytes : Bytes) (m : Machine) :
    Ends (append place bytes) m (fun _ n => m.Reaches [.logged place bytes] n)
      fun n => n = m := by
  unfold append
  refine ends_get_bind.2 ?_
  split
  · exact ends_of_error rfl rfl
  · exact ends_of_ok rfl (Machine.Step.logged m place bytes).reaches

end Effect

namespace History

variable {line : String} {desk : Desk}

/-- Some of the first entries of a line were made. -/
def Began (line : String) (before after : Desk) : Prop :=
  after.history = before.history ∧ ∃ entries done, Entries line before.history.logs entries ∧
    done <+: entries ∧ before.machine.Reaches done after.machine

/-- **Persisting a line** makes its entries. If it fails, the first of them may have been made. -/
theorem ends_persist (line : String) (desk : Desk) :
    Ends (persist line) desk
      (fun _ later => later.history = desk.history ∧
        ∃ entries, Entries line desk.history.logs entries ∧
          desk.machine.Reaches entries later.machine)
      (Began line desk) := by
  unfold persist Began
  refine ends_get_bind.2 ?_
  cases hlogs : desk.history.logs with
  | none => exact ends_pure ⟨rfl, [], .none, .refl _⟩
  | some logs =>
    dsimp only
    refine (DeskM.ends_onMachine (Effect.quiet_openFile logs.memory desk.machine)).bind_mono ?_ ?_
    · exact fun later h => ⟨h.2, _, [], .both logs [] [], List.nil_prefix, h.1⟩
    rintro memory opened ⟨hopened, hhistory⟩
    refine (DeskM.ends_onMachine (Effect.quiet_openFile logs.session opened.machine)).bind_mono
      ?_ ?_
    · exact fun later h => ⟨h.2.trans hhistory, _, [], .both logs [] [], List.nil_prefix,
        hopened.trans h.1⟩
    rintro session opened' ⟨hopened', hhistory'⟩
    have hopen : desk.machine.Reaches [] opened'.machine := hopened.trans hopened'
    have hkept : opened'.history = desk.history := hhistory'.trans hhistory
    refine (DeskM.ends_onMachine (Effect.ends_append memory (entryOf line) _)).bind_mono ?_ ?_
    · rintro later ⟨hlater, hhistory⟩
      refine ⟨hhistory.trans hkept, _, [], .both logs [] [], List.nil_prefix, ?_⟩
      rw [hlater]
      exact hopen
    rintro - written ⟨hwritten, hhistory⟩
    have hfirst := hopen.trans hwritten
    refine (DeskM.ends_onMachine (Effect.ends_append session (entryOf line) _)).mono ?_ ?_
    · rintro - later ⟨hlater, hhistory'⟩
      exact ⟨hhistory'.trans (hhistory.trans hkept), _, .both logs memory session,
        hfirst.trans hlater⟩
    · rintro later ⟨hlater, hhistory'⟩
      refine ⟨hhistory'.trans (hhistory.trans hkept), _, [.logged memory (entryOf line)],
        .both logs memory session, ⟨[.logged session (entryOf line)], rfl⟩, ?_⟩
      rw [hlater]
      exact hfirst

end History

namespace Session

variable {settings : Settings} {setup : Setup}

/-! ## One round -/

/-- **The ways in which a round can end.** -/
inductive RoundIs (settings : Settings) (setup : Setup) (t : Session) :
    EStateM.Result SessionError Session Stage → Prop where
  /-- The line could not be read. -/
  | unread (e : SessionError) (v : Session) (hread : readLine settings t = .error e v) :
      RoundIs settings setup t (.error e v)
  /-- The input has ended. -/
  | finished (v : Session) (hread : readLine settings t = .ok none v) :
      RoundIs settings setup t (.ok .over v)
  | blank (v : Session) (hread : readLine settings t = .ok (some "") v) :
      RoundIs settings setup t (.ok .reading v)
  /-- The line could not be logged. -/
  | unlogged (line : String) (read : Session) (e : SessionError) (v : Session)
      (hread : readLine settings t = .ok (some line) read) (hline : line ≠ "")
      (hpersist : SessionM.atDesk (History.persist line) read = .error e v) :
      RoundIs settings setup t (.error e v)
  /-- The terminal broke down while the line was run. -/
  | broken (line : String) (read logged : Session) (cause : Cause) (shell : Shell)
      (hread : readLine settings t = .ok (some line) read) (hline : line ≠ "")
      (hpersist : SessionM.atDesk (History.persist line) read = .ok ⟨⟩ logged)
      (hrun : runLine setup line logged.shell = .error cause shell) :
      RoundIs settings setup t (.error (.terminal cause) { logged with shell })
  | ran (line : String) (read logged : Session) (outcomes : List Outcome) (shell : Shell)
      (hread : readLine settings t = .ok (some line) read) (hline : line ≠ "")
      (hpersist : SessionM.atDesk (History.persist line) read = .ok ⟨⟩ logged)
      (hrun : runLine setup line logged.shell = .ok outcomes shell) :
      RoundIs settings setup t
        (.ok (if (outcomes.getLast?.map Outcome.isExit).getD false then .over else .reading)
          { logged with shell })

theorem round_of_unread {t v : Session} {e : SessionError}
    (hread : readLine settings t = .error e v) : round settings setup t = .error e v := by
  have hadvance : advance settings setup .reading t = .error e v := by
    rw [advance]
    exact bind_of_error hread
  unfold round
  exact bind_of_error hadvance

theorem advance_of_line {line : String} {t read : Session}
    (hread : readLine settings t = .ok (some line) read) :
    advance settings setup .reading t
      = .ok (if line.isEmpty then .reading else .logging line) read := by
  rw [advance, bind_of_ok hread]
  rfl

/-- Of a blank line nothing is logged or run. -/
theorem round_of_blank {t read : Session} (hread : readLine settings t = .ok (some "") read) :
    round settings setup t = .ok .reading read := by
  unfold round
  rw [bind_of_ok (advance_of_line hread)]
  rfl

/-- A round at the end of the input is the last one. -/
theorem round_of_usedUp {t later : Session} (h : readLine settings t = .ok none later) :
    round settings setup t = .ok .over later := by
  have hadvance : advance settings setup .reading t = .ok .over later := by
    rw [advance, bind_of_ok h]
    rfl
  unfold round
  rw [bind_of_ok hadvance]
  rfl

/-- A round in which a line was read goes on with logging it, unless it is blank. -/
theorem round_of_read {t read : Session} {line : String}
    (hread : readLine settings t = .ok (some line) read) (hline : line ≠ "") :
    round settings setup t = (do
      let stage ← advance settings setup (.logging line)
      advance settings setup stage : SessionM Stage) read := by
  have hempty : ¬ line.isEmpty = true := fun h => hline (String.isEmpty_iff.1 h)
  have hadvance : advance settings setup .reading t = .ok (.logging line) read := by
    rw [advance_of_line hread, if_neg hempty]
  unfold round
  rw [bind_of_ok hadvance]

theorem round_of_unlogged {t read v : Session} {line : String} {e : SessionError}
    (hread : readLine settings t = .ok (some line) read) (hline : line ≠ "")
    (hpersist : SessionM.atDesk (History.persist line) read = .error e v) :
    round settings setup t = .error e v := by
  rw [round_of_read hread hline]
  refine bind_of_error ?_
  rw [advance]
  exact bind_of_error hpersist

/-- A round in which a line was logged goes on with running it. -/
theorem round_of_logged {t read logged : Session} {line : String}
    (hread : readLine settings t = .ok (some line) read) (hline : line ≠ "")
    (hpersist : SessionM.atDesk (History.persist line) read = .ok ⟨⟩ logged) :
    round settings setup t = advance settings setup (.running line) logged := by
  have hlogging : advance settings setup (.logging line) read = .ok (.running line) logged := by
    rw [advance, bind_of_ok hpersist]
    rfl
  rw [round_of_read hread hline, bind_of_ok hlogging]

/-- **A round is one of these.** -/
theorem round_cases (settings : Settings) (setup : Setup) (t : Session) :
    RoundIs settings setup t (round settings setup t) := by
  cases hread : readLine settings t with
  | error e v =>
    rw [round_of_unread hread]
    exact .unread e v hread
  | ok line? read =>
    cases line? with
    | none =>
      rw [round_of_usedUp hread]
      exact .finished read hread
    | some line =>
      by_cases hline : line = ""
      · subst hline
        rw [round_of_blank hread]
        exact .blank read hread
      · cases hpersist : SessionM.atDesk (History.persist line) read with
        | error e v =>
          rw [round_of_unlogged hread hline hpersist]
          exact .unlogged line read e v hread hline hpersist
        | ok _ logged =>
          rw [round_of_logged hread hline hpersist, advance]
          cases hrun : runLine setup line logged.shell with
          | error cause shell =>
            rw [bind_of_error (SessionM.inShell_of_error hrun)]
            exact .broken line read logged cause shell hread hline hpersist hrun
          | ok outcomes shell =>
            rw [bind_of_ok (SessionM.inShell_of_ok hrun)]
            exact .ran line read logged outcomes shell hread hline hpersist hrun

/-! ### What a round does -/

/-- **The deeds of a line that was read:** its entries in the logs, and then its first commands. A
blank line has none. -/
inductive Deeds (logs : Option Logs) : String → List Event → Prop where
  | blank : Deeds logs "" []
  | line {line : String} {entries : List Event} (hline : line ≠ "")
      (hentries : History.Entries line logs entries) (count : Nat) :
      Deeds logs line (entries ++ dispatches (commandsOf line) count)

variable {s t u : Session} {lines : List String} {line : String}

/-- Reading a line does nothing but read it. -/
theorem calm_readLine (settings : Settings) (t : Session) :
    Ends (readLine settings) t
      (fun line read => t.desk.Calm read.desk ∧ (line.isSome →
        read.desk.machine.keys.unread.length < t.desk.machine.keys.unread.length))
      fun read => t.desk.Calm read.desk :=
  ends_get_bind.2 (SessionM.ends_atDesk (Editor.calm_readLine _ _ _))

/-- **A line that was logged and run** leaves its deeds. -/
theorem reaches_of_run {read logged : Session} {shell : Shell}
    (hread : readLine settings t = .ok (some line) read) (hline : line ≠ "")
    (hpersist : SessionM.atDesk (History.persist line) read = .ok ⟨⟩ logged)
    (hran : DoesSome (commandsOf line) logged.shell shell) :
    (∃ deeds, Deeds t.history.logs line deeds ∧ t.shell.machine.Reaches deeds shell.machine) ∧
      logged.history.logs = t.history.logs ∧
      shell.machine.keys.unread.length < t.shell.machine.keys.unread.length := by
  obtain ⟨hcalm, hless⟩ := (calm_readLine settings t).ok _ _ hread
  obtain ⟨hhistory, entries, hentries, hreach⟩ :=
    (SessionM.ends_atDesk (History.ends_persist line read.desk)).ok _ _ hpersist
  obtain ⟨count, hran⟩ := hran
  have hread' : t.shell.machine.Reaches [] read.shell.machine := hcalm.reaches
  have hlogged : read.shell.machine.Reaches entries logged.shell.machine := hreach
  have hlogs : read.history.logs = t.history.logs := hcalm.logs
  have hsame : logged.history = read.history := hhistory
  have hafter := hlogged.trans hran
  refine ⟨⟨entries ++ dispatches (commandsOf line) count, ?_, hread'.trans hafter⟩, ?_, ?_⟩
  · rw [← hlogs]
    exact .line hline hentries count
  · rw [hsame, hlogs]
  · exact Nat.lt_of_le_of_lt hafter.unread_length_le (hless rfl)

/-- **A round that leads to another one** has read a line, and has run it unless it is blank. -/
theorem exists_of_reading (hround : round settings setup t = .ok .reading u) :
    ∃ line read, readLine settings t = .ok (some line) read ∧
      (line = "" ∧ u = read ∨ ∃ logged outcomes shell, line ≠ "" ∧
        SessionM.atDesk (History.persist line) read = .ok ⟨⟩ logged ∧
        runLine setup line logged.shell = .ok outcomes shell ∧ u = { logged with shell }) := by
  have hcases := round_cases settings setup t
  rw [hround] at hcases
  generalize hstage : EStateM.Result.ok Stage.reading u = result at hcases
  cases hcases with
  | blank v hread =>
    cases hstage
    exact ⟨"", u, hread, .inl ⟨rfl, rfl⟩⟩
  | ran line read logged outcomes shell hread hline hpersist hrun =>
    refine ⟨line, read, hread, .inr ⟨logged, outcomes, shell, hline, hpersist, hrun, ?_⟩⟩
    exact (EStateM.Result.ok.inj hstage).2
  | unread e v hread => cases hstage
  | finished v hread => cases hstage
  | unlogged line read e v hread hline hpersist => cases hstage
  | broken line read logged cause shell hread hline hpersist hrun => cases hstage

/-- Such a round has left the deeds of its line. -/
theorem round_of_reading (htable : QuietTable setup.builtins)
    (hround : round settings setup t = .ok .reading u) :
    ∃ line read deeds, readLine settings t = .ok (some line) read ∧
      Deeds t.history.logs line deeds ∧ t.shell.machine.Reaches deeds u.shell.machine ∧
      u.history.logs = t.history.logs ∧
      u.shell.machine.keys.unread.length < t.shell.machine.keys.unread.length := by
  obtain ⟨line, read, hread, ⟨rfl, rfl⟩ | ⟨logged, outcomes, shell, hline, hpersist, hrun, rfl⟩⟩ :=
    exists_of_reading hround
  · obtain ⟨hcalm, hless⟩ := (calm_readLine settings t).ok _ _ hread
    exact ⟨"", u, [], hread, .blank, hcalm.reaches, hcalm.logs, hless rfl⟩
  · have hran := ((ends_runLine htable line logged.shell).ok _ _ hrun).1
    obtain ⟨⟨deeds, hdeeds, hreach⟩, hlogs, hless⟩ := reaches_of_run hread hline hpersist hran
    exact ⟨line, read, deeds, hread, hdeeds, hreach, hlogs, hless⟩

/-- What was done since a round began: nothing, or the first deeds of the line that it read. -/
def Doing (settings : Settings) (t : Session) (done : List Event) : Prop :=
  done = [] ∨ ∃ line read deeds, readLine settings t = .ok (some line) read ∧
    Deeds t.history.logs line deeds ∧ done <+: deeds

/-- **However a round ends,** it has done the first deeds of its line, in their order. -/
theorem reaches_round (settings : Settings) (htable : QuietTable setup.builtins) (t : Session) :
    ∃ done, Doing settings t done ∧
      t.shell.machine.Reaches done (endOf (round settings setup t)).shell.machine := by
  have hcases := round_cases settings setup t
  generalize round settings setup t = result at hcases
  cases hcases with
  | unread e v hread =>
    exact ⟨[], .inl rfl, ((calm_readLine settings t).error _ _ hread).reaches⟩
  | finished v hread => exact ⟨[], .inl rfl, ((calm_readLine settings t).ok _ _ hread).1.reaches⟩
  | blank v hread => exact ⟨[], .inl rfl, ((calm_readLine settings t).ok _ _ hread).1.reaches⟩
  | unlogged line read e v hread hline hpersist =>
    obtain ⟨hcalm, -⟩ := (calm_readLine settings t).ok _ _ hread
    obtain ⟨-, entries, done, hentries, hdone, hreach⟩ :=
      (SessionM.ends_atDesk (History.ends_persist line read.desk)).error _ _ hpersist
    have hread' : t.shell.machine.Reaches [] read.shell.machine := hcalm.reaches
    have hlogs : read.desk.history.logs = t.history.logs := hcalm.logs
    rw [hlogs] at hentries
    refine ⟨done, .inr ⟨line, read, _, hread, .line hline hentries 0, ?_⟩, hread'.trans hreach⟩
    exact hdone.trans (List.prefix_append _ _)
  | broken line read logged cause shell hread hline hpersist hrun =>
    have hran := (ends_runLine htable line logged.shell).error _ _ hrun
    obtain ⟨⟨deeds, hdeeds, hreach⟩, -⟩ := reaches_of_run hread hline hpersist hran
    exact ⟨deeds, .inr ⟨line, read, deeds, hread, hdeeds, List.prefix_rfl⟩, hreach⟩
  | ran line read logged outcomes shell hread hline hpersist hrun =>
    have hran := ((ends_runLine htable line logged.shell).ok _ _ hrun).1
    obtain ⟨⟨deeds, hdeeds, hreach⟩, -⟩ := reaches_of_run hread hline hpersist hran
    exact ⟨deeds, .inr ⟨line, read, deeds, hread, hdeeds, List.prefix_rfl⟩, hreach⟩

/-! ## Rounds -/

/-- **Rounds that lead from one to the next,** and the lines that they read. -/
inductive Rounds (settings : Settings) (setup : Setup) :
    Session → List String → Session → Prop where
  | refl (s : Session) : Rounds settings setup s [] s
  | head {s t u read : Session} {line : String} {lines : List String}
      (hread : readLine settings s = .ok (some line) read)
      (hround : round settings setup s = .ok .reading t) (h : Rounds settings setup t lines u) :
      Rounds settings setup s (line :: lines) u

/-- **The deeds of some lines:** those of each line, in the order of the lines. -/
inductive Chronicle (logs : Option Logs) : List String → List Event → Prop where
  | nil : Chronicle logs [] []
  | cons {line : String} {lines : List String} {deeds more : List Event}
      (hline : Deeds logs line deeds) (h : Chronicle logs lines more) :
      Chronicle logs (line :: lines) (deeds ++ more)

/-- **The journal of some rounds is the chronicle of their lines.** -/
theorem Rounds.reaches (htable : QuietTable setup.builtins)
    (h : Rounds settings setup s lines t) :
    (∃ deeds, Chronicle s.history.logs lines deeds ∧
      s.shell.machine.Reaches deeds t.shell.machine) ∧ t.history.logs = s.history.logs := by
  induction h with
  | refl s => exact ⟨⟨[], .nil, .refl _⟩, rfl⟩
  | @head s t u read line lines hread hround _ ih =>
    obtain ⟨line', read', deeds, hread', hdeeds, hreach, hlogs, -⟩ :=
      round_of_reading htable hround
    rw [hread'] at hread
    cases hread
    obtain ⟨⟨more, hmore, hreach'⟩, hlogs'⟩ := ih
    rw [hlogs] at hmore hlogs'
    exact ⟨⟨deeds ++ more, .cons hdeeds hmore, hreach.trans hreach'⟩, hlogs'⟩

/-- **The input gets shorter** with each round that leads to another one. -/
def Shrinks (settings : Settings) (setup : Setup) : Prop :=
  ∀ t u, round settings setup t = .ok .reading u →
    u.shell.machine.keys.unread.length < t.shell.machine.keys.unread.length

theorem shrinks_of_quiet (settings : Settings) (htable : QuietTable setup.builtins) :
    Shrinks settings setup := by
  intro t u hround
  obtain ⟨-, -, -, -, -, -, -, hless⟩ := round_of_reading htable hround
  exact hless

/-- Every round has taken a byte. -/
theorem Rounds.length_add_le (hshrinks : Shrinks settings setup)
    (h : Rounds settings setup s lines t) :
    lines.length + t.shell.machine.keys.unread.length ≤ s.shell.machine.keys.unread.length := by
  induction h with
  | refl s => exact Nat.le_of_eq (Nat.zero_add _)
  | head _ hround _ ih =>
    have hless := hshrinks _ _ hround
    rw [List.length_cons]
    omega

/-- A round that does not lead to another one. -/
def Last (settings : Settings) (setup : Setup) (t : Session) : Prop :=
  ∀ u, round settings setup t ≠ .ok .reading u

/-- A last round that succeeds ends the session. -/
theorem Last.over {stage : Stage} (h : Last settings setup t)
    (hround : round settings setup t = .ok stage u) : stage = .over := by
  have hcases := round_cases settings setup t
  rw [hround] at hcases
  generalize hresult : EStateM.Result.ok stage u = result at hcases
  cases hcases with
  | finished v hread =>
    cases hresult
    rfl
  | blank v hread =>
    cases hresult
    exact absurd hround (h u)
  | ran line read logged outcomes shell hread hline hpersist hrun =>
    obtain ⟨rfl, rfl⟩ := EStateM.Result.ok.inj hresult
    split
    · rfl
    · -- A round that stays would not be the last one.
      next hstay =>
      rw [if_neg hstay] at hround
      exact absurd hround (h _)
  | unread e v hread => cases hresult
  | unlogged line read e v hread hline hpersist => cases hresult
  | broken line read logged cause shell hread hline hpersist hrun => cases hresult

/-- **Every session comes to a last round.** -/
theorem exists_last (hshrinks : Shrinks settings setup) (s : Session) :
    ∃ lines t, Rounds settings setup s lines t ∧ Last settings setup t := by
  -- The input that is left gets shorter with each round.
  induction hlength : s.shell.machine.keys.unread.length using Nat.strong_induction_on
    generalizing s with
  | _ length ih =>
    by_cases hlast : Last settings setup s
    · exact ⟨[], s, .refl s, hlast⟩
    · obtain ⟨t, hround⟩ := not_forall_not.1 hlast
      obtain ⟨line, read, hread, -⟩ := exists_of_reading hround
      obtain ⟨lines, u, hrounds, hu⟩ := ih _ (hlength ▸ hshrinks s t hround) t rfl
      exact ⟨line :: lines, u, .head hread hround hrounds, hu⟩

/-- The result of a run whose last round has this result. -/
def closed : EStateM.Result SessionError Session Stage → EStateM.Result SessionError Session Unit
  | .ok _ s => .ok () s
  | .error e s => .error e s

theorem endOf_closed (result : EStateM.Result SessionError Session Stage) :
    endOf (closed result) = endOf result := by
  cases result <;> rfl

theorem Rounds.replWithin_eq (h : Rounds settings setup s lines t) (reads : Nat) :
    replWithin settings setup (lines.length + reads) s = replWithin settings setup reads t := by
  induction h with
  | refl s => rw [List.length_nil, Nat.zero_add]
  | head _ hround _ ih =>
    rw [List.length_cons, Nat.succ_add, replWithin, bind_of_ok hround, if_neg (by decide), ih]

/-- **A run is some rounds and a last one,** and its result is that of the last round. -/
theorem repl_eq_last (hshrinks : Shrinks settings setup) (h : Rounds settings setup s lines t)
    (hlast : Last settings setup t) :
    repl settings setup s = closed (round settings setup t) := by
  -- Every round took a byte, so one read at least is left for the last round.
  have hlength := h.length_add_le hshrinks
  have hreads : s.shell.machine.keys.unread.length + 1
      = lines.length + (s.shell.machine.keys.unread.length - lines.length + 1) := by omega
  unfold repl
  rw [get_bind, hreads]
  refine (bind_congr (h.replWithin_eq _)).trans ?_
  cases hround : round settings setup t with
  | error e u =>
    rw [replWithin, bind_of_error (bind_of_error hround)]
    rfl
  | ok stage u =>
    have hover := hlast.over hround
    have hdone : replWithin settings setup (s.shell.machine.keys.unread.length - lines.length + 1) t
        = .ok true u := by
      rw [replWithin, bind_of_ok hround, if_pos hover]
      rfl
    rw [bind_of_ok hdone]
    rfl

/-- **What a run does** is told by its rounds and the last one. -/
theorem repl_reaches (settings : Settings) (htable : QuietTable setup.builtins) (s : Session) :
    ∃ lines t deeds done, Rounds settings setup s lines t ∧ Last settings setup t ∧
      repl settings setup s = closed (round settings setup t) ∧
      Chronicle s.history.logs lines deeds ∧ Doing settings t done ∧
      s.shell.machine.Reaches (deeds ++ done) (endOf (repl settings setup s)).shell.machine := by
  have hshrinks := shrinks_of_quiet settings htable
  obtain ⟨lines, t, hrounds, hlast⟩ := exists_last hshrinks s
  obtain ⟨⟨deeds, hdeeds, hreach⟩, -⟩ := hrounds.reaches htable
  obtain ⟨done, hdone, hreach'⟩ := reaches_round settings htable t
  have hrepl := repl_eq_last hshrinks hrounds hlast
  refine ⟨lines, t, deeds, done, hrounds, hlast, hrepl, hdeeds, hdone, ?_⟩
  rw [hrepl, endOf_closed]
  exact hreach.trans hreach'

end Session

end LineShell
