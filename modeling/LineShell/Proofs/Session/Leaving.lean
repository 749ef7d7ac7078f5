import LineShell.Proofs.Session.Frame
/-!
Which commands are reported as leaving the shell.

Two kinds of command ask to leave: the word `exit`, which leaves no trace, and the builtin `exit`,
which an alias may lead to, and which sets the wish to leave for good. The wish is looked at behind
every builtin. So in a session that was asked to leave in the second way, and goes on, every builtin
is reported as leaving, whatever it was asked (`Session.dispatch_exit_iff`).
-/

set_option autoImplicit false

namespace LineShell

namespace Dispatch

variable {shell later : Shell} {words : List String} {outcome : Outcome}
  {called : Option (Builtin × List String)}

/-- Of the outcomes that fit, leaving is that of a builtin where the wish to leave is set. -/
theorem Fits.exit_iff (h : Fits called later outcome) : outcome = .exit ↔
    later.environment.shouldExit = true ∧ ∃ call, called = some call := by
  cases h with
  | builtin call hcalled status =>
    rw [hcalled]
    cases later.environment.shouldExit <;> simp
  | other outcome hcalled hplain =>
    have hstays : outcome ≠ .exit := by
      rintro rfl
      exact hplain
    simp [hstays, hcalled]

theorem Fits.exists_status (h : Fits called later outcome) {call : Builtin × List String}
    (hcall : called = some call) (hstays : outcome ≠ .exit) :
    ∃ status, outcome = .builtin status := by
  cases h with
  | builtin call hcalled status =>
    refine ⟨status, if_neg fun hset => hstays ?_⟩
    rw [if_pos hset]
  | other outcome hcalled hplain =>
    rw [hcalled] at hcall
    cases hcall

theorem exists_called_of_asked {request : Builtin.Request}
    (h : asked? shell words = some request) : ∃ call, called? shell words = some call := by
  obtain ⟨call, hcalled, -⟩ := Option.bind_eq_some_iff.1 h
  exact ⟨call, hcalled⟩

/-- The word `exit` comes to no builtin. -/
theorem called?_of_exit (h : words.head? = some exitWord) : called? shell words = none := by
  rw [called?, expanded?, if_pos h]
  rfl

end Dispatch

namespace Session

open Dispatch

/-- **A command is reported as leaving the shell** if it is the word `exit`, if it asks the builtin
`exit` to leave, or if it comes to a builtin after the wish to leave was set. Every other builtin is
reported with its status. The wish is set by such a request only. -/
theorem dispatch_exit_iff (settings : Settings) (host : Host) {words : List String}
    {outcome : Outcome} {shell later : Shell}
    (hrun : dispatch (setupOf settings host Builtin.table) words shell = .ok outcome later) :
    (outcome = .exit ↔ words.head? = some exitWord ∨ asked? shell words = some .leave ∨
      shell.environment.shouldExit = true ∧ ∃ call, called? shell words = some call) ∧
    (∀ call, called? shell words = some call → outcome ≠ .exit →
      ∃ status, outcome = .builtin status) ∧
    (later.environment.shouldExit = true ↔
      shell.environment.shouldExit = true ∨ asked? shell words = some .leave) := by
  have hends := @ends_dispatch (setupOf settings host Builtin.table) rfl words shell
  obtain ⟨hfollows, hfits⟩ := hends.ok outcome later hrun
  have henvironment : later.environment = _ := congrArg Prod.fst hfollows.standing
  have hshould : later.environment.shouldExit = true ↔
      shell.environment.shouldExit = true ∨ asked? shell words = some .leave := by
    rw [henvironment]
    exact shouldExit_changes
  by_cases hexit : words.head? = some exitWord
  · rw [if_pos hexit] at hfits
    refine ⟨⟨fun _ => .inl hexit, fun _ => hfits⟩, fun call hcall => ?_, hshould⟩
    rw [called?_of_exit hexit] at hcall
    cases hcall
  · rw [if_neg hexit] at hfits
    refine ⟨?_, fun call hcall => hfits.exists_status hcall, hshould⟩
    rw [hfits.exit_iff, hshould]
    constructor
    · rintro ⟨hset | hasked, hcalled⟩
      · exact .inr (.inr ⟨hset, hcalled⟩)
      · exact .inr (.inl hasked)
    · rintro (hhead | hasked | ⟨hset, hcalled⟩)
      · exact absurd hhead hexit
      · exact ⟨.inr hasked, exists_called_of_asked hasked⟩
      · exact ⟨.inl hset, hcalled⟩

/-- A new shell in a directory whose alias file makes `q` stand for `exit`. -/
def quitting : Shell where
  machine := .boot ((FileTree.empty.addDir (bytesOf ".files") [] .all).add (bytesOf "ALIAS")
    [bytesOf ".files"] (.file (bytesOf "q=exit\n") .plain))
  environment := .start [] (some (bytesOf "/"))

/-- Two commands, one after the other, and what the second one asks for. -/
def twice (setup : Setup) (first second : List String) :
    ShellM (Outcome × Option Builtin.Request × Outcome) := do
  let one ← dispatch setup first
  let asked := asked? (← get) second
  return (one, asked, ← dispatch setup second)

/-- **The wish to leave stays:** behind `q` a command that prints is reported as leaving. -/
theorem dispatch_exit_after_leave :
    (twice (setupOf {} Standard.host Builtin.table) ["q"] ["echo", "hi"]).run' quitting
      = some (.exit, some (.print ["hi"] true), .exit) := by
  decide +kernel

/-- An alias leads to the builtin `exit`, and the wish to leave is set. -/
theorem dispatch_exit_iff_quitting : ∃ outcome later,
    dispatch (setupOf {} Standard.host Builtin.table) ["q"] quitting = .ok outcome later ∧
      outcome = .exit ∧ later.environment.shouldExit = true := by
  have hasked : asked? quitting ["q"] = some .leave := by decide +kernel
  have hdone : (dispatch (setupOf {} Standard.host Builtin.table) ["q"]).run' quitting
      = some .exit := by
    decide +kernel
  have hrun := eq_ok_of_run' hdone
  obtain ⟨-, -, hset⟩ := dispatch_exit_iff {} Standard.host hrun
  exact ⟨_, _, hrun, rfl, hset.2 (.inr hasked)⟩

end Session

end LineShell
