import LineShell.Programs.Standard
import LineShell.Proofs.Line.Scanning
import LineShell.Proofs.Shell.Commands
import LineShell.Session
/-!
Two lines with a separator between them.

A line `a;b` does what `a` does and then, unless `a` was ended, what `b` does (`runLine_joined`).
The commands of `a;b` are those of `a` and of `b` up to empty ones, which do nothing. Between the
two lines the screen is flushed, which no command sees: the shells are twins from there on (`Twin`).
-/

set_option autoImplicit false

namespace LineShell

/-! ## The commands of a joined line -/

namespace Line

theorem filter_dropEmptyEnd (texts : List (List Char)) :
    (dropEmptyEnd texts).filter (· ≠ []) = texts.filter (· ≠ []) := by
  unfold dropEmptyEnd
  split
  · next hlast =>
    obtain ⟨front, rfl⟩ := List.getLast?_eq_some_iff.1 hlast
    simp
  · rfl

/-- The commands with something in them are the segments with something in them. -/
theorem filter_commands (text : List Char) :
    (commands text).filter (· ≠ []) = (segments none text).filter (· ≠ []) := by
  rw [← filter_dropEmptyEnd (segments none text), commands]
  split
  · next hempty =>
    symm
    simpa [List.filter_eq_nil_iff] using hempty
  · rfl

end Line

theorem filter_commandsOf (line : String) : (commandsOf line).filter (· ≠ "")
    = ((Line.segments none line.toList).filter (· ≠ [])).map String.ofList := by
  have hempty : ((fun command : String => decide (command ≠ "")) ∘ String.ofList)
      = fun text => decide (text ≠ []) := by
    funext text
    simp
  rw [← Line.filter_commands, commandsOf, List.filter_map, hempty]

/-- **The commands of a joined line** are those of its two parts, up to empty ones. -/
theorem filter_commandsOf_joined {a : String} (h : Quote.after none a.toList = none) (b : String) :
    (commandsOf (a ++ ";" ++ b)).filter (· ≠ "")
      = (commandsOf a ++ commandsOf b).filter (· ≠ "") := by
  have htext : (a ++ ";" ++ b).toList = a.toList ++ Line.separator :: b.toList := by
    rw [String.toList_append, String.toList_append, List.append_assoc]
    rfl
  rw [filter_commandsOf, htext, Line.segments_joined h, List.filter_append, List.filter_append,
    List.map_append, ← filter_commandsOf, ← filter_commandsOf]

/-! ## Twins -/

/-- **Twins:** shells that differ in how much of the output is held back, and in their journals. -/
structure Twin (p q : Shell) : Prop where
  environment : p.environment = q.environment
  files : p.machine.files = q.machine.files
  workDir : p.machine.workDir = q.machine.workDir
  keys : p.machine.keys = q.machine.keys
  errors : p.machine.errors = q.machine.errors
  left : p.machine.screen.NeverFails
  right : q.machine.screen.NeverFails
  shown : p.machine.screen.contents = q.machine.screen.contents

namespace Twin

variable {host : Host} {p q r : Shell}

theorem refl (h : p.machine.screen.NeverFails) : Twin p p := ⟨rfl, rfl, rfl, rfl, rfl, h, h, rfl⟩

theorem symm (h : Twin p q) : Twin q p :=
  ⟨h.environment.symm, h.files.symm, h.workDir.symm, h.keys.symm, h.errors.symm, h.right, h.left,
    h.shown.symm⟩

theorem trans (h : Twin p q) (h' : Twin q r) : Twin p r :=
  ⟨h.environment.trans h'.environment, h.files.trans h'.files, h.workDir.trans h'.workDir,
    h.keys.trans h'.keys, h.errors.trans h'.errors, h.left, h'.right, h.shown.trans h'.shown⟩

theorem flushed_left (h : Twin p q) : Twin { p with machine := p.machine.flushed } q :=
  ⟨h.environment, h.files, h.workDir, h.keys, h.errors, h.left.settled, h.right,
    (Machine.contents_flushed _).trans h.shown⟩

theorem surroundings (h : Twin p q) : p.machine.surroundings = q.machine.surroundings := by
  unfold Machine.surroundings Machine.base
  rw [h.files, h.workDir, h.keys]

theorem ran (h : Twin p q) (hp : p.machine.screen.pending = [])
    (hq : q.machine.screen.pending = []) (launch : Launch) (report : Report) :
    Twin { p with machine := p.machine.ran launch report }
      { q with machine := q.machine.ran launch report } := by
  refine ⟨h.environment, rfl, h.workDir, ?_, ?_, h.left.land _, h.right.land _, ?_⟩
  · show p.machine.keys.consumed report.consumed = q.machine.keys.consumed report.consumed
    rw [h.keys]
  · show p.machine.errors ++ report.errors = q.machine.errors ++ report.errors
    rw [h.errors]
  · show (p.machine.screen.land report.output).contents
      = (q.machine.screen.land report.output).contents
    rw [Screen.contents_land hp, Screen.contents_land hq, h.shown]

theorem wrote (h : Twin p q) (text : String) :
    Twin { p with machine := p.machine.wrote text } { q with machine := q.machine.wrote text } := by
  refine ⟨h.environment, h.files, h.workDir, h.keys, h.errors, h.left.accept _,
    h.right.accept _, ?_⟩
  show (p.machine.wrote text).screen.contents = (q.machine.wrote text).screen.contents
  rw [Machine.contents_wrote h.left, Machine.contents_wrote h.right, h.shown]

end Twin

/-- **Being twins is a likeness,** whatever the programs do. -/
theorem likeness_twin (host : Host) : Likeness host Twin where
  environment h := h.environment
  files h := h.files
  workDir h := h.workDir
  left h := h.left
  right h := h.right
  moved h _ _ := ⟨rfl, h.files, rfl, h.keys, h.errors, h.left, h.right, h.shown⟩
  recorded h _ :=
    ⟨h.environment, h.files, h.workDir, h.keys, h.errors, h.left, h.right, h.shown⟩
  wrote h text := h.wrote text
  flushed h := h.flushed_left.symm.flushed_left.symm
  ran h hp hq launch := ⟨by rw [h.surroundings], h.ran hp hq launch⟩

/-! ## Runs that come to the same -/

/-- The results of two runs that come to the same, up to commands that did nothing. -/
inductive SameRun : EStateM.Result Cause Shell (List Outcome) →
    EStateM.Result Cause Shell (List Outcome) → Prop where
  | intro {first second : List Outcome} {p q : Shell}
      (houtcomes : first.filter (· ≠ .noOp) = second.filter (· ≠ .noOp)) (htwin : Twin p q) :
      SameRun (.ok first p) (.ok second q)

theorem SameRun.symm {r s : EStateM.Result Cause Shell (List Outcome)} (h : SameRun r s) :
    SameRun s r := by
  cases h with
  | intro houtcomes htwin => exact .intro houtcomes.symm htwin.symm

theorem SameRun.trans {r s t : EStateM.Result Cause Shell (List Outcome)} (h : SameRun r s)
    (h' : SameRun s t) : SameRun r t := by
  cases h with
  | intro houtcomes htwin =>
    cases h' with
    | intro houtcomes' htwin' => exact .intro (houtcomes.trans houtcomes') (htwin.trans htwin')

/-- Whether the last of some commands kept the rest of the line from being run. -/
def endedLine (outcomes : List Outcome) : Bool :=
  (outcomes.getLast?.map Outcome.endsLine).getD false

/-- Runs a line, and another one behind it unless the first one was ended. -/
def runInTurn (setup : Setup) (a b : String) : ShellM (List Outcome) := do
  let first ← runLine setup a
  if endedLine first then return first
  return first ++ (← runLine setup b)

variable {setup : Setup} {p q : Shell}

theorem endedLine_cons {outcome : Outcome} (h : ¬ outcome.endsLine = true)
    (outcomes : List Outcome) : endedLine (outcome :: outcomes) = endedLine outcomes := by
  unfold endedLine
  rw [List.getLast?_cons]
  cases outcomes.getLast? with
  | none => simpa using h
  | some last => rfl

/-- **Commands behind others** are run unless those ended the line. -/
theorem runCommands_append (setup : Setup) (commands more : List String) :
    runCommands setup (commands ++ more) = do
      let first ← runCommands setup commands
      if endedLine first then return first
      return first ++ (← runCommands setup more) := by
  induction commands with
  | nil =>
    rw [List.nil_append, runCommands, pure_bind, if_neg (by decide)]
    simp
  | cons command commands ih =>
    rw [List.cons_append, runCommands, ih, runCommands, bind_assoc]
    refine congrArg _ (funext fun outcome => ?_)
    by_cases hends : outcome.endsLine
    · have hended : endedLine [outcome] = true := hends
      rw [if_pos hends, if_pos hends, pure_bind, if_pos hended]
    · rw [if_neg hends, if_neg hends, bind_assoc, bind_assoc]
      refine congrArg _ (funext fun first => ?_)
      rw [pure_bind, endedLine_cons hends]
      by_cases hended : endedLine first
      · rw [if_pos hended, if_pos hended, pure_bind]
      · rw [if_neg hended, if_neg hended, bind_assoc]
        simp

theorem dispatch_empty (shell : Shell) : dispatch setup (wordsOf "") shell
    = .ok .noOp { shell with machine := shell.machine.record (.dispatched []) } := by
  have hwords : wordsOf "" = [] := by decide
  rw [hwords]
  rfl

/-- **Empty commands may be left out.** -/
theorem sameRun_filter (htable : BlindTable setup.host setup.builtins) (commands : List String)
    (h : Twin p q) : SameRun (runCommands setup commands p)
      (runCommands setup (commands.filter (· ≠ "")) q) := by
  induction commands generalizing p q with
  | nil => exact .intro rfl h
  | cons command commands ih =>
    by_cases hempty : command = ""
    · rw [hempty, List.filter_cons_of_neg (by simp), runCommands,
        bind_of_ok (dispatch_empty p), if_neg (by decide)]
      have hrecorded : Twin { p with machine := p.machine.record (.dispatched []) } q :=
        ⟨h.environment, h.files, h.workDir, h.keys, h.errors, h.left, h.right, h.shown⟩
      have hrest := ih hrecorded
      generalize hr : runCommands setup commands _ = r at hrest
      generalize runCommands setup _ q = s at hrest ⊢
      cases hrest with
      | intro houtcomes htwin =>
        rw [bind_of_ok hr]
        exact .intro houtcomes htwin
    · rw [List.filter_cons_of_pos (by simpa using hempty), runCommands, runCommands]
      obtain ⟨outcome, p', q', hp, hq, h'⟩ :=
        (blind_dispatch rfl htable (wordsOf command) Twin (likeness_twin _) p q h).exists_ok
      rw [bind_of_ok hp, bind_of_ok hq]
      by_cases hends : outcome.endsLine
      · rw [if_pos hends, if_pos hends]
        exact .intro rfl h'
      · rw [if_neg hends, if_neg hends]
        have hrest := ih h'
        generalize hr : runCommands setup commands p' = r at hrest
        generalize hs : runCommands setup _ q' = s at hrest
        cases hrest with
        | intro houtcomes htwin =>
          rw [bind_of_ok hr, bind_of_ok hs]
          refine .intro ?_ htwin
          rw [List.filter_cons, List.filter_cons, houtcomes]

theorem sameRun_of_filter_eq (htable : BlindTable setup.host setup.builtins)
    {commands others : List String} (hsame : commands.filter (· ≠ "") = others.filter (· ≠ ""))
    (h : Twin p q) : SameRun (runCommands setup commands p) (runCommands setup others q) := by
  have hleft := sameRun_filter htable commands h
  rw [hsame] at hleft
  exact hleft.trans (sameRun_filter htable others (.refl h.right)).symm

theorem exists_runCommands (htable : BlindTable setup.host setup.builtins) (commands : List String)
    (h : Twin p q) : ∃ outcomes p' q', runCommands setup commands p = .ok outcomes p' ∧
      runCommands setup commands q = .ok outcomes q' ∧ Twin p' q' :=
  (blind_runCommands rfl htable commands Twin (likeness_twin _) p q h).exists_ok

theorem runLine_of_runCommands {line : String} {outcomes : List Outcome}
    (hscreen : q.machine.screen.NeverFails)
    (h : runCommands setup (commandsOf line) p = .ok outcomes q) :
    runLine setup line p = .ok outcomes { q with machine := q.machine.flushed } := by
  unfold runLine
  rw [bind_of_ok h, bind_of_ok (onMachine_flush hscreen)]
  rfl

/-- Two lines in turn do what the commands of both do in one line. -/
theorem sameRun_runInTurn (htable : BlindTable setup.host setup.builtins) (a b : String)
    (h : p.machine.screen.NeverFails) : SameRun (runInTurn setup a b p)
      (runCommands setup (commandsOf a ++ commandsOf b) p) := by
  obtain ⟨first, mid, mid', hfirst, hfirst', htwin⟩ :=
    exists_runCommands htable (commandsOf a) (Twin.refl h)
  obtain rfl : mid = mid' := by
    rw [hfirst] at hfirst'
    cases hfirst'
    rfl
  rw [runCommands_append, bind_of_ok hfirst, runInTurn,
    bind_of_ok (runLine_of_runCommands htwin.left hfirst)]
  by_cases hended : endedLine first
  · rw [if_pos hended, if_pos hended]
    exact .intro rfl htwin.flushed_left
  · obtain ⟨second, last, last', hsecond, hsecond', htwin'⟩ :=
      exists_runCommands htable (commandsOf b) htwin.flushed_left
    rw [if_neg hended, if_neg hended, bind_of_ok hsecond',
      bind_of_ok (runLine_of_runCommands htwin'.left hsecond)]
    exact .intro rfl htwin'.flushed_left

/-- A line comes to the same as its commands; it only flushes the screen in addition. -/
theorem sameRun_runLine (htable : BlindTable setup.host setup.builtins) (line : String)
    (h : p.machine.screen.NeverFails) : SameRun (runLine setup line p)
      (runCommands setup (commandsOf line) p) := by
  obtain ⟨outcomes, later, later', hrun, hrun', htwin⟩ :=
    exists_runCommands htable (commandsOf line) (Twin.refl h)
  rw [runLine_of_runCommands htwin.left hrun, hrun']
  exact .intro rfl htwin.flushed_left

/-- **A separator is sequential composition.** Where the quotes of `a` are closed, running `a;b`
succeeds, and so does running `a` and then, unless `a` was ended, `b`. The variables, both
directories, the wish to stop, the files and the output are the same, and so are the outcomes of
the commands that did something. -/
theorem runLine_joined (settings : Settings) (host : Host) (shell : Shell) (a b : String)
    (hscreen : shell.machine.screen.NeverFails) (hclosed : Quote.after none a.toList = none) :
    ∃ outcomes later inTurn last,
      runLine (Session.setupOf settings host Builtin.table) (a ++ ";" ++ b) shell
        = .ok outcomes later ∧
      runInTurn (Session.setupOf settings host Builtin.table) a b shell = .ok inTurn last ∧
      outcomes.filter (· ≠ .noOp) = inTurn.filter (· ≠ .noOp) ∧
      later.environment = last.environment ∧
      later.machine.workDir = last.machine.workDir ∧
      later.machine.files = last.machine.files ∧
      later.machine.errors = last.machine.errors ∧
      later.machine.screen.contents = last.machine.screen.contents := by
  generalize hsetup : Session.setupOf settings host Builtin.table = setup
  have htable : BlindTable setup.host setup.builtins := by
    rw [← hsetup]
    exact blindTable_builtins host
  have hjoined := sameRun_runLine htable (a ++ ";" ++ b) hscreen
  have hcommands := sameRun_of_filter_eq htable (filter_commandsOf_joined hclosed b)
    (Twin.refl hscreen)
  have hsame := (hjoined.trans hcommands).trans (sameRun_runInTurn htable a b hscreen).symm
  generalize hr : runLine setup (a ++ ";" ++ b) shell = r at hsame
  generalize hs : runInTurn setup a b shell = s at hsame
  cases hsame with
  | intro houtcomes htwin =>
    exact ⟨_, _, _, _, rfl, rfl, houtcomes, htwin.environment, htwin.workDir, htwin.files,
      htwin.errors, htwin.shown⟩

/-- What a run comes to: its outcomes, the screen and the environment after it. -/
def shownBy : EStateM.Result Cause Shell (List Outcome) →
    Option (List Outcome × Bytes × Environment)
  | .ok outcomes shell => some (outcomes, shell.machine.screen.contents, shell.environment)
  | .error _ _ => none

/-- The separator in the quotes of `a` is not one of the line. -/
theorem runLine_joined_assignment : ∃ outcomes later,
    runLine (Session.setupOf {} Standard.host Builtin.table) ("x='1;2'" ++ ";" ++ "echo é")
      ⟨.boot .empty, .start [] (some (bytesOf "/"))⟩ = .ok outcomes later ∧
    outcomes.filter (· ≠ .noOp) = [.assignment, .builtin 0] ∧
    later.environment.get? "x" = some "1;2" ∧
    later.machine.screen.contents = bytesOf "é\n" := by
  obtain ⟨outcomes, later, inTurn, last, hrun, hlast, houtcomes, henvironment, -, -, -, hshown⟩ :=
    runLine_joined {} Standard.host ⟨.boot .empty, .start [] (some (bytesOf "/"))⟩ "x='1;2'"
      "echo é" ⟨rfl, rfl⟩ (by decide +kernel)
  have hcomes := congrArg shownBy hlast
  have hinTurn : shownBy (runInTurn (Session.setupOf {} Standard.host Builtin.table) "x='1;2'"
      "echo é" ⟨.boot .empty, .start [] (some (bytesOf "/"))⟩)
        = some ([.assignment, .builtin 0], bytesOf "é\n",
          ⟨.ofList [("x", "1;2")], bytesOf "/", false⟩) := by
    decide +kernel
  rw [hinTurn, shownBy, Option.some.injEq, Prod.mk.injEq, Prod.mk.injEq] at hcomes
  obtain ⟨hdone, hcontents, henv⟩ := hcomes
  refine ⟨outcomes, later, hrun, ?_, ?_, ?_⟩
  · rw [houtcomes, ← hdone]
    rfl
  · rw [henvironment, ← henv]
    decide +kernel
  · rw [hshown, ← hcontents]

end LineShell
