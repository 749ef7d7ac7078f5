import LineShell.Dispatch
import LineShell.Proofs.Terminal.NeverFails
/-!
What commands do not see.

A command sees the files, the directory and the environment. It sees neither what is on the screen
nor, if the programs leave the keys alone, which keys are left. So a command that runs at two places
that are alike does the same at both, and puts the same on both screens (`Blind`). What places are
alike is left open: a relation will do if the steps of a command keep it (`Likeness`). Of such
relations there is one that takes the keys away (`Alike`).

Blindness is closed under sequences, so it is proved once for each effect here and put together for
the commands elsewhere.
-/

set_option autoImplicit false

namespace LineShell

/-- What is left of a machine when a program has run. -/
def Machine.ran (m : Machine) (launch : Launch) (report : Report) : Machine :=
  { m with
    files := report.files
    screen := m.screen.land report.output
    errors := m.errors ++ report.errors
    keys := m.keys.consumed report.consumed
    journal := .printed report.output :: .launched launch :: m.journal }

/-- What a program finds that is started now. -/
def Machine.surroundings (m : Machine) : Surroundings := ⟨m.files, m.base, m.keys.offered⟩

/-- **A likeness:** a relation on shells that every step of a command keeps. What is related has the
same environment and the same files and is in the same directory, on screens that never fail. -/
structure Likeness (host : Host) (alike : Shell → Shell → Prop) : Prop where
  environment : ∀ {p q}, alike p q → p.environment = q.environment
  files : ∀ {p q}, alike p q → p.machine.files = q.machine.files
  workDir : ∀ {p q}, alike p q → p.machine.workDir = q.machine.workDir
  left : ∀ {p q}, alike p q → p.machine.screen.NeverFails
  right : ∀ {p q}, alike p q → q.machine.screen.NeverFails
  moved : ∀ {p q}, alike p q → ∀ workDir environment,
    alike ⟨{ p.machine with workDir }, environment⟩ ⟨{ q.machine with workDir }, environment⟩
  recorded : ∀ {p q}, alike p q → ∀ event, alike { p with machine := p.machine.record event }
    { q with machine := q.machine.record event }
  wrote : ∀ {p q}, alike p q → ∀ text, alike { p with machine := p.machine.wrote text }
    { q with machine := q.machine.wrote text }
  flushed : ∀ {p q}, alike p q → alike { p with machine := p.machine.flushed }
    { q with machine := q.machine.flushed }
  /-- A program is started with nothing held back. -/
  ran : ∀ {p q}, alike p q → p.machine.screen.pending = [] → q.machine.screen.pending = [] →
    ∀ launch, host.run p.machine.surroundings launch = host.run q.machine.surroundings launch ∧
      ∀ report, alike { p with machine := p.machine.ran launch report }
        { q with machine := q.machine.ran launch report }

/-- **Two results that agree:** both actions succeeded with the same value, or both failed with the
same error where that is allowed, and the shells are alike. -/
inductive Agree {ε α : Type} (alike : Shell → Shell → Prop) (mayFail : Prop) :
    EStateM.Result ε Shell α → EStateM.Result ε Shell α → Prop where
  | ok (v : α) {p q : Shell} (h : alike p q) : Agree alike mayFail (.ok v p) (.ok v q)
  | error (hmay : mayFail) (e : ε) {p q : Shell} (h : alike p q) :
    Agree alike mayFail (.error e p) (.error e q)

/-- **A blind action** does the same in shells that are alike, by whatever likeness. -/
def Blind {ε α : Type} (host : Host) (mayFail : Prop) (x : EStateM ε Shell α) : Prop :=
  ∀ alike, Likeness host alike → ∀ p q, alike p q → Agree alike mayFail (x p) (x q)

variable {ε α β : Type} {host : Host} {alike : Shell → Shell → Prop} {mayFail : Prop} {p q : Shell}

namespace Likeness

theorem base (hl : Likeness host alike) (h : alike p q) : p.machine.base = q.machine.base := by
  rw [Machine.base, Machine.base, hl.files h, hl.workDir h]

theorem currentDir (hl : Likeness host alike) (h : alike p q) :
    p.machine.currentDir = q.machine.currentDir := by
  rw [Machine.currentDir, Machine.currentDir, hl.base h]

/-- A change of the environment that does not look at the screen. -/
theorem changed (hl : Likeness host alike) (h : alike p q)
    (change : Environment → Environment) :
    alike { p with environment := change p.environment }
      { q with environment := change q.environment } := by
  have hmoved := hl.moved h q.machine.workDir (change q.environment)
  have hp : { p with environment := change p.environment }
      = (⟨{ p.machine with workDir := q.machine.workDir }, change q.environment⟩ : Shell) := by
    rw [← hl.workDir h, ← hl.environment h]
  rw [hp]
  exact hmoved

end Likeness

/-! ## Sequences -/

/-- **A sequence agrees** if its first action does and its second one does in alike shells. -/
theorem Agree.bind {x : EStateM ε Shell α} {f : α → EStateM ε Shell β}
    (hx : Agree alike mayFail (x p) (x q))
    (hf : ∀ v p' q', alike p' q' → Agree alike mayFail (f v p') (f v q')) :
    Agree alike mayFail ((x >>= f) p) ((x >>= f) q) := by
  generalize hp : x p = r at hx
  generalize hq : x q = s at hx
  cases hx with
  | ok v h =>
    rw [bind_of_ok hp, bind_of_ok hq]
    exact hf v _ _ h
  | error hmay e h =>
    rw [bind_of_error hp, bind_of_error hq]
    exact .error hmay e h

/-- Where nothing may fail both actions succeed. -/
theorem Agree.exists_ok {r s : EStateM.Result ε Shell α} (h : Agree alike False r s) :
    ∃ v p' q', r = .ok v p' ∧ s = .ok v q' ∧ alike p' q' := by
  cases h with
  | ok v halike => exact ⟨v, _, _, rfl, rfl, halike⟩
  | error hmay e halike => exact hmay.elim

theorem blind_pure (v : α) : Blind host mayFail (pure v : EStateM ε Shell α) :=
  fun _ _ _ _ h => .ok v h

/-- Reading the state is no harm if what is done then depends on what is alike only. -/
theorem blind_get_bind {f : Shell → EStateM ε Shell α} (hf : ∀ s, Blind host mayFail (f s))
    (hsame : ∀ {alike p q}, Likeness host alike → alike p q → f p = f q) :
    Blind host mayFail (get >>= f) := by
  intro alike hl p q h
  rw [get_bind, get_bind, hsame hl h]
  exact hf q alike hl p q h

theorem Blind.bind {x : EStateM ε Shell α} {f : α → EStateM ε Shell β} (hx : Blind host mayFail x)
    (hf : ∀ v, Blind host mayFail (f v)) : Blind host mayFail (x >>= f) :=
  fun alike hl p q h => (hx alike hl p q h).bind fun v p' q' h' => hf v alike hl p' q' h'

theorem Blind.ite {c : Prop} [Decidable c] {x y : EStateM ε Shell α} (hx : Blind host mayFail x)
    (hy : Blind host mayFail y) : Blind host mayFail (if c then x else y) := by
  by_cases hc : c
  · rwa [if_pos hc]
  · rwa [if_neg hc]

theorem blind_forM {f : β → EStateM ε Shell PUnit} (hf : ∀ x, Blind host mayFail (f x))
    (l : List β) : Blind host mayFail (l.forM f) := by
  induction l with
  | nil => exact blind_pure PUnit.unit
  | cons x l ih => exact (hf x).bind fun _ => ih

/-! ## Effects -/

/-- An effect that never fails and changes machines as `change` does. -/
theorem blind_onMachine {effect : Effect α} (v : α) (change : Machine → Machine)
    (heffect : ∀ {m : Machine}, m.screen.NeverFails → effect m = .ok v (change m))
    (hkeeps : ∀ {alike p q}, Likeness host alike → alike p q →
      alike { p with machine := change p.machine } { q with machine := change q.machine }) :
    Blind host mayFail (ShellM.onMachine effect) := by
  intro alike hl p q h
  rw [ShellM.onMachine, ShellM.onMachine, heffect (hl.left h), heffect (hl.right h)]
  exact .ok v (hkeeps hl h)

theorem blind_write (text : String) : Blind host mayFail (ShellM.write text) :=
  blind_onMachine () (·.wrote text) (fun h => Effect.write_of_neverFails h text)
    fun hl h => hl.wrote h text

theorem writeLine_of_neverFails (h : p.machine.screen.NeverFails) (text : String) :
    ShellM.writeLine text p = .ok () { p with machine := p.machine.wrote (text ++ "\n") } := by
  rw [ShellM.writeLine, ShellM.onMachine, Effect.writeLine, Effect.write_of_neverFails h]

theorem blind_writeLine (text : String) : Blind host mayFail (ShellM.writeLine text) :=
  blind_onMachine () (·.wrote (text ++ "\n")) (fun h => Effect.write_of_neverFails h _)
    fun hl h => hl.wrote h _

theorem blind_flush : Blind host mayFail (ShellM.onMachine Effect.flush) :=
  blind_onMachine () Machine.flushed (fun h => Effect.flush_of_neverFails h)
    fun hl h => hl.flushed h

theorem onMachine_flush (h : p.machine.screen.NeverFails) :
    ShellM.onMachine Effect.flush p = .ok () { p with machine := p.machine.flushed } := by
  rw [ShellM.onMachine, Effect.flush_of_neverFails h]

theorem onMachine_note (event : Event) (p : Shell) : ShellM.onMachine (Effect.note event) p
    = .ok () { p with machine := p.machine.record event } :=
  rfl

theorem blind_note (event : Event) : Blind host mayFail (ShellM.onMachine (Effect.note event)) :=
  blind_onMachine () (·.record event) (fun _ => rfl) fun hl h => hl.recorded h event

theorem blind_modifyEnvironment (change : Environment → Environment) :
    Blind host mayFail (ShellM.modifyEnvironment change) :=
  fun _ hl _ _ h => .ok PUnit.unit (hl.changed h change)

/-- What a failed action did stays done, and the other one goes on from there. -/
theorem Blind.tryCatch {x : ShellM α} {handle : Cause → ShellM α} (hx : Blind host True x)
    (hhandle : ∀ cause, Blind host mayFail (handle cause)) :
    Blind host mayFail (tryCatch x handle) := by
  intro alike hl p q h
  show Agree alike mayFail (EStateM.tryCatch x handle p) (EStateM.tryCatch x handle q)
  have hagree := hx alike hl p q h
  unfold EStateM.tryCatch
  generalize x p = r at hagree
  generalize x q = s at hagree
  cases hagree with
  | ok v halike => exact .ok v halike
  | error hmay cause halike => exact hhandle cause alike hl _ _ halike

theorem Effect.launch_eq (host : Host) (launch : Launch) (m : Machine) :
    Effect.launch host launch m = match host.run m.surroundings launch with
      | none => .ok none (m.record (.launched launch))
      | some report => .ok (some report.status) (m.ran launch report) := by
  have hnote : note (.launched launch) m = .ok () (m.record (.launched launch)) := rfl
  have hgiven : (⟨(m.record (.launched launch)).files, (m.record (.launched launch)).base,
      (m.record (.launched launch)).keys.offered⟩ : Surroundings) = m.surroundings := rfl
  unfold Effect.launch
  rw [bind_of_ok hnote, get_bind, hgiven]
  cases host.run m.surroundings launch with
  | none => rfl
  | some report => rfl

/-- **A program runs in the same way** in shells that are alike and hold nothing back. -/
theorem agree_launch (hl : Likeness host alike) (h : alike p q)
    (hp : p.machine.screen.pending = []) (hq : q.machine.screen.pending = []) (launch : Launch) :
    Agree alike mayFail (ShellM.onMachine (Effect.launch host launch) p)
      (ShellM.onMachine (Effect.launch host launch) q) := by
  obtain ⟨hrun, hran⟩ := hl.ran h hp hq launch
  rw [ShellM.onMachine, ShellM.onMachine, Effect.launch_eq, Effect.launch_eq, hrun]
  cases host.run q.machine.surroundings launch with
  | none => exact .ok none (hl.recorded h _)
  | some report => exact .ok (some report.status) (hran report)

/-! ## Shells with other keys -/

/-- The programs of a host leave the keys alone: no program's run depends on its input. -/
def Host.LeavesKeys (host : Host) : Prop :=
  ∀ files base input input' launch,
    host.run ⟨files, base, input⟩ launch = host.run ⟨files, base, input'⟩ launch

/-- Keys that are used up. Asking for one more gives the end of the input. -/
structure KeySource.UsedUp (keys : KeySource) : Prop where
  unread : keys.unread = []
  failsAfter : keys.failsAfter = none

namespace KeySource

theorem shared_consumed (keys : KeySource) (count : Nat) :
    (keys.consumed count).shared = keys.shared := by
  unfold consumed
  cases hshared : keys.shared with
  | false => rw [if_neg (by simp), hshared]
  | true => rw [if_pos rfl]

variable {keys : KeySource}

theorem UsedUp.offered (h : keys.UsedUp) : keys.offered = [] := by
  unfold KeySource.offered
  cases keys.shared with
  | false => rfl
  | true => exact h.unread

theorem UsedUp.consumed (h : keys.UsedUp) (count : Nat) : (keys.consumed count).UsedUp := by
  unfold KeySource.consumed
  cases keys.shared with
  | false => exact h
  | true => exact ⟨by rw [if_pos rfl, h.unread, List.drop_nil], h.failsAfter⟩

end KeySource

/-- What a program prints lands behind all that is shown if nothing is held back. -/
theorem Screen.contents_land {screen : Screen} (h : screen.pending = []) (bytes : Bytes) :
    (screen.land bytes).contents = screen.contents ++ bytes := by
  rw [Screen.contents, Screen.contents, Screen.land, h, List.append_nil, List.append_nil]

/-- **Two shells that are alike,** on screens that show the same behind `a` and behind `b`. The keys
of the second one are used up, and those of the first one are not seen by any program. -/
structure Alike (host : Host) (a b : Bytes) (p q : Shell) : Prop where
  environment : p.environment = q.environment
  files : p.machine.files = q.machine.files
  workDir : p.machine.workDir = q.machine.workDir
  errors : p.machine.errors = q.machine.errors
  left : p.machine.screen.NeverFails
  right : q.machine.screen.NeverFails
  unseen : p.machine.keys.shared = false ∨ host.LeavesKeys
  usedUp : q.machine.keys.UsedUp
  shown : ∃ out, p.machine.screen.contents = a ++ out ∧ q.machine.screen.contents = b ++ out

namespace Alike

variable {a b : Bytes}

theorem wrote (h : Alike host a b p q) (text : String) :
    Alike host a b { p with machine := p.machine.wrote text }
      { q with machine := q.machine.wrote text } := by
  obtain ⟨out, hp, hq⟩ := h.shown
  refine ⟨h.environment, h.files, h.workDir, h.errors, h.left.accept _, h.right.accept _, h.unseen,
    h.usedUp, out ++ bytesOf text, ?_, ?_⟩
  · show (p.machine.wrote text).screen.contents = _
    rw [Machine.contents_wrote h.left, hp, List.append_assoc]
  · show (q.machine.wrote text).screen.contents = _
    rw [Machine.contents_wrote h.right, hq, List.append_assoc]

/-- Flushing one of the screens does not change what is on it. -/
theorem flushed_left (h : Alike host a b p q) :
    Alike host a b { p with machine := p.machine.flushed } q := by
  obtain ⟨out, hp, hq⟩ := h.shown
  exact ⟨h.environment, h.files, h.workDir, h.errors, h.left.settled, h.right, h.unseen, h.usedUp,
    out, (Machine.contents_flushed _).trans hp, hq⟩

theorem flushed (h : Alike host a b p q) : Alike host a b
    { p with machine := p.machine.flushed } { q with machine := q.machine.flushed } := by
  obtain ⟨out, hp, hq⟩ := h.flushed_left.shown
  exact ⟨h.environment, h.files, h.workDir, h.errors, h.left.settled, h.right.settled, h.unseen,
    h.usedUp, out, hp, (Machine.contents_flushed _).trans hq⟩

/-- A program finds the same, as it does not see the keys. -/
theorem run_eq (h : Alike host a b p q) (launch : Launch) :
    host.run p.machine.surroundings launch = host.run q.machine.surroundings launch := by
  unfold Machine.surroundings Machine.base
  rw [h.files, h.workDir]
  rcases h.unseen with hshared | hleaves
  · rw [h.usedUp.offered, KeySource.offered, hshared]
    rfl
  · exact hleaves _ _ _ _ _

theorem ran (h : Alike host a b p q) (hp : p.machine.screen.pending = [])
    (hq : q.machine.screen.pending = []) (launch : Launch) (report : Report) :
    Alike host a b { p with machine := p.machine.ran launch report }
      { q with machine := q.machine.ran launch report } := by
  obtain ⟨out, hleft, hright⟩ := h.shown
  refine ⟨h.environment, rfl, h.workDir, ?_, h.left.land _, h.right.land _, ?_,
    h.usedUp.consumed _, out ++ report.output, ?_, ?_⟩
  · show p.machine.errors ++ report.errors = q.machine.errors ++ report.errors
    rw [h.errors]
  · show (p.machine.keys.consumed report.consumed).shared = false ∨ _
    rw [KeySource.shared_consumed]
    exact h.unseen
  · show (p.machine.screen.land report.output).contents = _
    rw [Screen.contents_land hp, hleft, List.append_assoc]
  · show (q.machine.screen.land report.output).contents = _
    rw [Screen.contents_land hq, hright, List.append_assoc]

end Alike

theorem likeness_alike (host : Host) (a b : Bytes) : Likeness host (Alike host a b) where
  environment h := h.environment
  files h := h.files
  workDir h := h.workDir
  left h := h.left
  right h := h.right
  moved h _ _ := ⟨rfl, h.files, rfl, h.errors, h.left, h.right, h.unseen, h.usedUp, h.shown⟩
  recorded h _ :=
    ⟨h.environment, h.files, h.workDir, h.errors, h.left, h.right, h.unseen, h.usedUp, h.shown⟩
  wrote h text := h.wrote text
  flushed h := h.flushed
  ran h hp hq launch := ⟨h.run_eq launch, h.ran hp hq launch⟩

end LineShell
