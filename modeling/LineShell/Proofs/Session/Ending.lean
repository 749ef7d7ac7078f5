import LineShell.Proofs.Editor.Course
import LineShell.Proofs.Session.Rounds
import LineShell.Proofs.Shell.Starting
/-!
Why a session comes to an end.

A session reads lines as long as it gets some, and a read asks for keys as long as it wants some.
The definitions of both recurse on the input that is left, but what they do is what a loop does that
knows nothing of that (`Editor.keysFrom_eq_once`, `Session.repl_eq_lap`). Each read that gives a
line has taken a byte, also one that gives a blank line or what was left in front of the end of the
input; so there is at most one more read than there are bytes. A line takes up no more commands than
it has, and of each command one word is looked up once in the aliases, whatever it stands for
(`Session.repl_ends`).
-/

set_option autoImplicit false

namespace LineShell

/-! ## The loop of a read -/

namespace Editor

variable {prompt : String} {desk : Desk} {decoder : Decoder} {b : EditBuffer}

/-- **Once through the loop of a read:** a byte is asked for and taken, and more is done if more
keys are wanted then. -/
def once (prompt : String) (more : Decoder → EditBuffer → DeskM (Option EditBuffer))
    (decoder : Decoder) (b : EditBuffer) : DeskM (Option EditBuffer) := do
  match ← DeskM.onTerminal Effect.nextByte with
  | none => return leftover b
  | some byte =>
    match ← take prompt byte decoder b with
    | .going decoder b => more decoder b
    | .complete b => return some b
    | .ended => return none

/-- Reads keys from what the source holds. -/
def keysFrom (prompt : String) (decoder : Decoder) (b : EditBuffer) :
    DeskM (Option EditBuffer) := do
  let unread := (← get).machine.keys.unread
  readKeys prompt unread decoder b

/-- **A read around its loop:** it is prepared, then some loop reads its keys, and then its line is
accepted. -/
def around (keys : String → Decoder → EditBuffer → DeskM (Option EditBuffer)) (maxLength : Nat)
    (prompt : String) : DeskM (Option String) := do
  prepare prompt
  match ← keys prompt .normal (.empty (max maxLength 1)) with
  | none => return none
  | some b => return some (← accept b)

theorem readLine_eq_around : readLine = around keysFrom := rfl

/-- What is asked for is the first byte of the input, and the others stay. -/
theorem unread_of_nextByte {byte : Option UInt8} {asked : Desk}
    (h : DeskM.onTerminal Effect.nextByte desk = .ok byte asked) :
    byte = desk.machine.keys.unread.head? ∧
      asked.machine.keys.unread = desk.machine.keys.unread.tail := by
  obtain ⟨m, hnext, rfl⟩ := DeskM.onMachine_eq_ok.1 h
  rw [Effect.nextByte_eq] at hnext
  split at hnext
  · cases hnext
  · cases hnext
    exact ⟨rfl, rfl⟩

/-- A byte that is taken takes no other one along. -/
theorem unread_of_take {byte : UInt8} {reading : Reading} {later : Desk}
    (h : take prompt byte decoder b desk = .ok reading later) :
    later.machine.keys.unread = desk.machine.keys.unread := by
  have hasks := asks_take prompt byte decoder b desk
  have hcount := count_turn prompt byte decoder b desk.history
  cases hall : Effect.askAll (turn prompt byte decoder b desk.history).requests desk.machine with
  | ok _ m =>
    rw [hasks.granted m hall] at h
    cases h
    rw [Effect.unread_of_askAll hall, hcount, List.drop_zero]
  | error cause m =>
    obtain ⟨moved, herror, -⟩ := hasks.refused cause m hall
    rw [herror] at h
    cases h

/-- **Reading keys is a loop.** -/
theorem keysFrom_eq_once (prompt : String) (decoder : Decoder) (b : EditBuffer) :
    keysFrom prompt decoder b = once prompt (keysFrom prompt) decoder b := by
  funext desk
  unfold keysFrom once
  rw [get_bind]
  cases hnext : DeskM.onTerminal Effect.nextByte desk with
  | error e asked =>
    rw [bind_of_error hnext]
    cases desk.machine.keys.unread with
    | nil => rw [readKeys, bind_of_error hnext]
    | cons first rest => rw [readKeys, bind_of_error hnext]
  | ok byte asked =>
    obtain ⟨hbyte, hrest⟩ := unread_of_nextByte hnext
    rw [bind_of_ok hnext]
    cases hunread : desk.machine.keys.unread with
    | nil =>
      rw [hunread] at hbyte
      rw [hbyte, readKeys, bind_of_ok hnext]
      rfl
    | cons first rest =>
      rw [hunread] at hbyte hrest
      rw [hbyte, readKeys, bind_of_ok hnext, hbyte]
      dsimp only [List.head?_cons]
      cases htake : take prompt first decoder b asked with
      | error e later => rw [bind_of_error htake, bind_of_error htake]
      | ok reading later =>
        -- What is left of the input is the list that the recursion is on.
        have hleft := (unread_of_take htake).trans hrest
        rw [bind_of_ok htake, bind_of_ok htake]
        cases reading with
        | going decoder' b' =>
          dsimp only
          rw [get_bind, hleft]
          rfl
        | complete b' => rfl
        | ended => rfl

end Editor

/-! ## One look-up -/

namespace AliasTable

/-- A name with the words behind it, where the name stands for a value or for nothing. -/
def substituted (value? : Option String) (name : String) (rest : List String) : List String :=
  match value? with
  | some value => if Text.White value.toList then name :: rest else wordsOf value ++ rest
  | none => name :: rest

theorem spliced_cons (table : AliasTable) (name : String) (rest : List String) :
    table.spliced (name :: rest) = substituted (table.get? name) name rest := rfl

end AliasTable

/-! ## The commands of a line -/

/-- The words of a command that was taken up. -/
def Event.taken? : Event → Option (List String)
  | .dispatched words => some words
  | _ => none

/-- The commands that were taken up, in order. -/
def Machine.takenUp (m : Machine) : List (List String) := m.deeds.filterMap Event.taken?

/-- **Between two shells just these commands were taken up,** and nothing was put back into the
input. -/
structure TookUp (commands : List (List String)) (p q : Shell) : Prop where
  unread : q.machine.keys.unread.length ≤ p.machine.keys.unread.length
  takenUp : q.machine.takenUp = p.machine.takenUp ++ commands

section Relations

variable {commands more : List (List String)} {p q r : Shell}

theorem TookUp.trans (h : TookUp commands p q) (h' : TookUp more q r) :
    TookUp (commands ++ more) p r :=
  ⟨Nat.le_trans h'.unread h.unread, by rw [h'.takenUp, h.takenUp, List.append_assoc]⟩

theorem TookUp.trans_nil (h : TookUp commands p q) (h' : TookUp [] q r) : TookUp commands p r := by
  have hall := h.trans h'
  rwa [List.append_nil] at hall

instance : IsPreorder Shell (TookUp []) where
  refl _ := ⟨Nat.le_refl _, (List.append_nil _).symm⟩
  trans _ _ _ h h' := h.trans_nil h'

theorem tookUp_of_reaches {deeds : List Event} (h : p.machine.Reaches deeds q.machine) :
    TookUp (deeds.filterMap Event.taken?) p q := by
  refine ⟨h.unread_length_le, ?_⟩
  unfold Machine.takenUp
  rw [h.deeds_eq, List.filterMap_append]

theorem tookUp_nil (p q : Shell) (h : p.machine.Reaches [] q.machine) : TookUp [] p q :=
  tookUp_of_reaches h

end Relations

/-- An action that takes up no command, and puts nothing back into the input. -/
abbrev Frugal {α : Type} (x : ShellM α) : Prop := Keeps (TookUp []) x

/-- A table makes frugal commands only. What a command is given is the screen and the environment;
so it can neither reach the keys nor take up another command. -/
def FrugalTable (builtins : List BuiltinEntry) : Prop :=
  ∀ entry ∈ builtins, ∀ env name arguments command,
    entry.command? env name arguments = some command → Frugal command

theorem QuietTable.frugal {builtins : List BuiltinEntry} (h : QuietTable builtins) :
    FrugalTable builtins := fun entry hentry env name arguments command hcommand =>
  Dispatch.keeps_of_quiet tookUp_nil (h entry hentry env name arguments command hcommand)

variable {setup : Setup}

/-- **Taking up a command** takes up no other one. -/
theorem tookUp_dispatch (htable : FrugalTable setup.builtins) (words : List String) (p : Shell) :
    Ends (dispatch setup words) p (fun _ q => TookUp [words] p q) (TookUp [words] p) := by
  have hnoted := @tookUp_of_reaches p { p with machine := p.machine.record (.dispatched words) } _
    (Machine.Step.dispatched p.machine words).reaches
  have hsettle : Frugal (Dispatch.settle setup words) :=
    Dispatch.keeps_settle tookUp_nil htable words
  rw [Dispatch.dispatch_eq_settle]
  refine ends_bind_of_ok (onMachine_note _ p) ((hsettle _).mono ?_ ?_)
  · exact fun _ _ h => hnoted.trans_nil h
  · exact fun _ h => hnoted.trans_nil h

/-- Of some commands the first ones were taken up, in their order, and no others. -/
def TookSome (commands : List String) (p q : Shell) : Prop :=
  ∃ count ≤ commands.length, TookUp ((commands.take count).map wordsOf) p q

theorem tookSome_runCommands (htable : FrugalTable setup.builtins) (commands : List String)
    (p : Shell) : Ends (runCommands setup commands) p (fun _ q => TookSome commands p q)
      (TookSome commands p) := by
  -- Each command is taken up before the rest, and the rest is never longer than what is left.
  induction commands generalizing p with
  | nil => exact ends_pure ⟨0, Nat.le_refl 0, refl_of (TookUp []) p⟩
  | cons command rest ih =>
    have hone {q : Shell} (h : TookUp [wordsOf command] p q) : TookSome (command :: rest) p q :=
      ⟨1, Nat.succ_le_succ (Nat.zero_le _), h⟩
    refine (tookUp_dispatch htable (wordsOf command) p).bind_mono (fun q h => hone h)
      fun outcome q hq => ?_
    have hmore {r : Shell} (h : TookSome rest q r) : TookSome (command :: rest) p r := by
      obtain ⟨count, hcount, hrest⟩ := h
      exact ⟨count + 1, Nat.succ_le_succ hcount, hq.trans hrest⟩
    split
    · exact ends_pure (hone hq)
    · exact (ih q).bind_mono (fun _ h => hmore h) fun _ _ h => ends_pure (hmore h)

/-- **A line takes up its first commands,** and no others. -/
theorem tookSome_runLine (htable : FrugalTable setup.builtins) (line : String) (p : Shell) :
    TookSome (commandsOf line) p (endOf (runLine setup line p)) := by
  refine Ends.endOf (Ends.bind (tookSome_runCommands htable (commandsOf line) p) ?_)
  intro outcomes q ⟨count, hcount, htook⟩
  have hflush : Frugal (ShellM.onMachine Effect.flush) :=
    Dispatch.keeps_of_quiet tookUp_nil ShellM.quiet_flush
  have hlater {r : Shell} (h : TookUp [] q r) : TookSome (commandsOf line) p r :=
    ⟨count, hcount, htook.trans_nil h⟩
  exact (hflush q).bind_mono (fun _ h => hlater h) fun _ _ h => ends_pure (hlater h)

namespace Session

variable {settings : Settings} {s : Session}

/-! ## The loop of a session -/

/-- A read has taken a byte, and what follows puts none back. -/
theorem shrinks_of_frugal (settings : Settings) (htable : FrugalTable setup.builtins) :
    Shrinks settings setup := by
  intro t u hround
  obtain ⟨line, read, hread, hafter⟩ := exists_of_reading hround
  have hless : read.shell.machine.keys.unread.length < t.shell.machine.keys.unread.length :=
    ((calm_readLine settings t).ok _ _ hread).2 rfl
  rcases hafter with ⟨-, rfl⟩ | ⟨logged, outcomes, shell, -, hpersist, hrun, rfl⟩
  · exact hless
  · obtain ⟨-, entries, -, hreach⟩ :=
      (SessionM.ends_atDesk (History.ends_persist line read.desk)).ok _ _ hpersist
    have hlogged : logged.shell.machine.keys.unread.length
        ≤ read.shell.machine.keys.unread.length := hreach.unread_length_le
    obtain ⟨count, -, htook⟩ := tookSome_runLine htable line logged.shell
    rw [hrun] at htook
    have hran : shell.machine.keys.unread.length ≤ logged.shell.machine.keys.unread.length :=
      htook.unread
    show shell.machine.keys.unread.length < t.shell.machine.keys.unread.length
    omega

/-- **Once through the loop of a session:** a round, and more if the session has not come to its
end. -/
def lap (settings : Settings) (setup : Setup) (more : SessionM Unit) : SessionM Unit := do
  let stage ← round settings setup
  if stage = .over then return () else more

/-- **A run is a loop.** -/
theorem repl_eq_lap (hshrinks : Shrinks settings setup) :
    repl settings setup = lap settings setup (repl settings setup) := by
  funext s
  unfold lap
  by_cases hlast : Last settings setup s
  · rw [repl_eq_last hshrinks (.refl s) hlast]
    cases hround : round settings setup s with
    | error e t =>
      rw [bind_of_error hround]
      rfl
    | ok stage t =>
      rw [bind_of_ok hround, if_pos (hlast.over hround)]
      rfl
  · obtain ⟨t, hround⟩ := not_forall_not.1 hlast
    obtain ⟨line, read, hread, -⟩ := exists_of_reading hround
    obtain ⟨lines, u, hrounds, hu⟩ := exists_last hshrinks t
    -- The rounds from `t` on are the rounds from `s` on without the first one.
    rw [bind_of_ok hround, if_neg (by decide), repl_eq_last hshrinks hrounds hu,
      repl_eq_last hshrinks (.head hread hround hrounds) hu]

/-- **Every session comes to an end,** whatever the terminal and the programs do. A run is some
rounds and a last one, and the rounds before the last are no more than there are bytes, as each of
them has taken one. Rounds and keys are read by loops that do not count what is left. A line takes
up its first commands and no others, and each of these is what it is with its first word looked up
once. -/
theorem repl_ends (htable : FrugalTable setup.builtins) (s : Session) :
    (∃ lines t, Rounds settings setup s lines t ∧ Last settings setup t ∧
      repl settings setup s = closed (round settings setup t) ∧
      lines.length ≤ s.shell.machine.keys.unread.length) ∧
    repl settings setup = lap settings setup (repl settings setup) ∧
    Editor.readLine = Editor.around Editor.keysFrom ∧
    (∀ prompt decoder b, Editor.keysFrom prompt decoder b
      = Editor.once prompt (Editor.keysFrom prompt) decoder b) ∧
    (∀ t line read, readLine settings t = .ok (some line) read →
      read.shell.machine.keys.unread.length < t.shell.machine.keys.unread.length) ∧
    (∀ line p, ∃ count ≤ (commandsOf line).length,
      (endOf (runLine setup line p)).machine.takenUp
        = p.machine.takenUp ++ ((commandsOf line).take count).map wordsOf) ∧
    ∀ p directory first rest, p.machine.currentDir = .ok directory →
      first ≠ Dispatch.exitWord → ∃ name arguments q,
        AliasTable.substituted ((Dispatch.aliasesIn p.machine directory).get? first) first rest
          = name :: arguments ∧ Calm p q ∧
        dispatch setup (first :: rest) p = Dispatch.resolve setup directory name arguments q := by
  have hshrinks := shrinks_of_frugal settings htable
  refine ⟨?_, repl_eq_lap hshrinks, Editor.readLine_eq_around, Editor.keysFrom_eq_once,
    fun t line read hread => ?_, fun line p => ?_,
    fun p directory first rest hdirectory hfirst => ?_⟩
  · obtain ⟨lines, t, hrounds, hlast⟩ := exists_last hshrinks s
    have hlength := hrounds.length_add_le hshrinks
    exact ⟨lines, t, hrounds, hlast, repl_eq_last hshrinks hrounds hlast, by omega⟩
  · exact ((calm_readLine settings t).ok _ _ hread).2 rfl
  · obtain ⟨count, hcount, htook⟩ := tookSome_runLine htable line p
    exact ⟨count, hcount, htook.takenUp⟩
  · obtain ⟨name, arguments, hwords⟩ :=
      (Dispatch.aliasesIn p.machine directory).exists_spliced_eq_cons (List.cons_ne_nil first rest)
    have hstays : (first :: rest).head? ≠ some Dispatch.exitWord := fun h =>
      hfirst (Option.some.inj h)
    obtain ⟨q, hcalm, -, -, hdispatch⟩ :=
      Dispatch.exists_dispatch_eq_resolve hdirectory hstays hwords
    rw [AliasTable.spliced_cons] at hwords
    exact ⟨name, arguments, q, hwords, hcalm, hdispatch setup⟩

/-! ### Two aliases that stand for each other -/

def circularFiles : FileTree :=
  let files := FileTree.empty.addDir (bytesOf ".files") [] .all
  files.add (bytesOf "ALIAS") [bytesOf ".files"] (.file (bytesOf "a = 'b x'\nb = 'a y'\n") .all)

/-- A session with four bytes of input, of which the last is no line feed. -/
def circular : Session :=
  .start {} { Machine.boot circularFiles with keys := .ofBytes (bytesOf "a\n\nb") } []

theorem get?_circular :
    (Dispatch.aliasesIn circular.shell.machine (bytesOf "/")).get? "a" = some "b x" := by
  have hread : circular.shell.machine.files.read circular.shell.machine.base
      (Path.join (bytesOf "/") Alias.filePath) = .ok (bytesOf "a = 'b x'\nb = 'a y'\n") := by
    decide
  have htext : circular.shell.machine.files.readText circular.shell.machine.base
      (Path.join (bytesOf "/") Alias.filePath) = .ok "a = 'b x'\nb = 'a y'\n" := by
    unfold FileTree.readText
    rw [hread, except_ok_bind, stringOf?_bytesOf]
  rw [Dispatch.aliasesIn, htext]
  decide

/-- The session comes to its end, and the one alias leads to the other, but not back. -/
theorem repl_ends_circular :
    (∃ lines t, Rounds {} Dispatch.obliging circular lines t ∧ Last {} Dispatch.obliging t ∧
      lines.length ≤ 4) ∧
    ∃ q, dispatch Dispatch.obliging ["a"] circular.shell
      = Dispatch.resolve Dispatch.obliging (bytesOf "/") "b" ["x"] q := by
  obtain ⟨⟨lines, t, hrounds, hlast, -, hlength⟩, -, -, -, -, -, honce⟩ :=
    @repl_ends Dispatch.obliging {} quietTable_builtins.frugal circular
  refine ⟨⟨lines, t, hrounds, hlast, hlength⟩, ?_⟩
  obtain ⟨name, arguments, q, hwords, -, hdispatch⟩ :=
    honce circular.shell (bytesOf "/") "a" [] rfl (by decide)
  rw [get?_circular] at hwords
  have hexpanded : AliasTable.substituted (some "b x") "a" [] = ["b", "x"] := by decide
  rw [hexpanded] at hwords
  cases hwords
  exact ⟨q, hdispatch⟩

end Session

end LineShell
