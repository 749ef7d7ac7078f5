import LineShell.Proofs.Shell.Blind
/-!
What the shell does to its machine, step by step.

A step writes, flushes, asks for a byte, starts a program, makes an entry in a log or takes up a
command; or something happens away from the terminal, and then nothing is said of the files
(`Machine.Step`). A byte is asked for and a program is started only when nothing is held back. Of
the steps two kinds are deeds: an entry in a log, and a command that is taken up. `Machine.Reaches`
lists the deeds on the way from one machine to another, and these are what the journal tells
(`Reaches.deeds_eq`). The input only gets shorter on the way (`Reaches.unread_length_le`).
-/

set_option autoImplicit false

namespace LineShell

/-! ## Asking for a byte -/

/-- The machine after the next byte was asked for from keys that may break down. -/
def Machine.asked (m : Machine) : Machine :=
  { m with
    keys :=
      { m.keys with
        unread := m.keys.unread.tail
        failsAfter := m.keys.failsAfter.map (· - 1) }
    journal := .awaited :: m.journal }

theorem Effect.nextByte_eq (m : Machine) : nextByte m =
    if m.keys.failsAfter = some 0 then .error .keyFailure (m.record .awaited)
    else .ok m.keys.unread.head? m.asked := by
  obtain ⟨files, workDir, screen, ⟨unread, failsAfter, shared⟩, errors, journal⟩ := m
  cases failsAfter with
  | none => rfl
  | some reads =>
    cases reads with
    | zero => rfl
    | succ reads => rfl

/-- An entry in a log, or a command that is taken up. -/
def Event.isDeed : Event → Bool
  | .logged _ _ => true
  | .dispatched _ => true
  | _ => false

theorem KeySource.unread_consumed_le (keys : KeySource) (count : Nat) :
    (keys.consumed count).unread.length ≤ keys.unread.length := by
  unfold consumed
  split
  · rw [List.length_drop]
    exact Nat.sub_le _ _
  · exact Nat.le_refl _

namespace Machine

/-! ## Steps -/

/-- **One step of a machine,** with the deed that it is, if it is one. -/
inductive Step : Machine → List Event → Machine → Prop where
  /-- Something that happens away from the terminal, and is no deed. -/
  | aside (m : Machine) (files : FileTree) (workDir : WorkDir) (errors : Bytes) :
      Step m [] { m with files, workDir, errors }
  | wrote (m : Machine) (bytes : Bytes) : Step m []
      { m with
        screen := m.screen.accept bytes
        journal := .wrote (m.screen.accepted bytes) :: m.journal }
  | flushed (m : Machine) : Step m [] m.flushed
  | noticed (m : Machine) (notice : Notice) : Step m [] (m.record (.noticed notice))
  | asked (m : Machine) (hheld : m.screen.pending = []) : Step m [] m.asked
  /-- The keys break down. -/
  | refused (m : Machine) (hheld : m.screen.pending = []) : Step m [] (m.record .awaited)
  /-- The program cannot be started. -/
  | stranded (m : Machine) (launch : Launch) (hheld : m.screen.pending = []) :
      Step m [] (m.record (.launched launch))
  | ran (m : Machine) (launch : Launch) (report : Report) (hheld : m.screen.pending = []) :
      Step m [] (m.ran launch report)
  | dispatched (m : Machine) (words : List String) :
      Step m [.dispatched words] (m.record (.dispatched words))
  | logged (m : Machine) (place : Place) (bytes : Bytes) : Step m [.logged place bytes]
      { m with
        files := m.files.appendAt place bytes
        journal := .logged place bytes :: m.journal }

/-- **The deeds on the way** from one machine to another. -/
inductive Reaches : Machine → List Event → Machine → Prop where
  | refl (m : Machine) : Reaches m [] m
  | tail {m n o : Machine} {deeds more : List Event} (h : Reaches m deeds n)
      (hstep : Step n more o) : Reaches m (deeds ++ more) o

variable {m n o : Machine} {first more : List Event}

theorem Step.reaches (h : Step m first n) : Reaches m first n := .tail (.refl m) h

theorem Reaches.trans (h : Reaches m first n) (h' : Reaches n more o) :
    Reaches m (first ++ more) o := by
  induction h' with
  | refl =>
    rw [List.append_nil]
    exact h
  | tail _ hstep ih =>
    rw [← List.append_assoc]
    exact .tail ih hstep

/-- A way on which nothing is done in addition. -/
theorem Reaches.trans_quiet (h : Reaches m first n) (h' : Reaches n [] o) : Reaches m first o := by
  have hall := h.trans h'
  rwa [List.append_nil] at hall

/-! ### What the journal tells -/

/-- The deeds in the journal, in order. -/
def deeds (m : Machine) : List Event := m.journal.reverse.filter Event.isDeed

theorem deeds_of_journal (event : Event) (h : n.journal = event :: m.journal) :
    n.deeds = m.deeds ++ if event.isDeed then [event] else [] := by
  unfold deeds
  rw [h, List.reverse_cons, List.filter_append, List.filter_cons, List.filter_nil]

theorem Step.deeds_eq (h : Step m more n) : n.deeds = m.deeds ++ more := by
  cases h with
  | aside => exact (List.append_nil _).symm
  | ran launch report =>
    have hjournal : (m.record (.launched launch)).journal = .launched launch :: m.journal := rfl
    have hran : (m.ran launch report).journal
        = .printed report.output :: (m.record (.launched launch)).journal := rfl
    rw [deeds_of_journal _ hran, deeds_of_journal _ hjournal]
    exact List.append_nil _
  | wrote bytes => exact deeds_of_journal (.wrote (m.screen.accepted bytes)) rfl
  | flushed => exact deeds_of_journal .flushed rfl
  | noticed notice => exact deeds_of_journal (.noticed notice) rfl
  | asked => exact deeds_of_journal .awaited rfl
  | refused => exact deeds_of_journal .awaited rfl
  | stranded launch => exact deeds_of_journal (.launched launch) rfl
  | dispatched words => exact deeds_of_journal (.dispatched words) rfl
  | logged place bytes => exact deeds_of_journal (.logged place bytes) rfl

/-- **The journal tells the deeds** on the way, and no others. -/
theorem Reaches.deeds_eq (h : Reaches m more n) : n.deeds = m.deeds ++ more := by
  induction h with
  | refl => exact (List.append_nil _).symm
  | tail _ hstep ih => rw [hstep.deeds_eq, ih, List.append_assoc]

/-! ### What gets shorter, and what stays -/

theorem Step.unread_length_le (h : Step m more n) :
    n.keys.unread.length ≤ m.keys.unread.length := by
  cases h with
  | asked =>
    show m.keys.unread.tail.length ≤ _
    rw [List.length_tail]
    exact Nat.sub_le _ _
  | ran launch report => exact m.keys.unread_consumed_le report.consumed
  | _ => exact Nat.le_refl _

/-- **The input only gets shorter.** -/
theorem Reaches.unread_length_le (h : Reaches m more n) :
    n.keys.unread.length ≤ m.keys.unread.length := by
  induction h with
  | refl => exact Nat.le_refl _
  | tail _ hstep ih => exact Nat.le_trans hstep.unread_length_le ih

theorem Step.neverFails (h : Step m more n) (hscreen : m.screen.NeverFails) :
    n.screen.NeverFails := by
  cases h with
  | wrote bytes => exact hscreen.accept bytes
  | flushed => exact hscreen.settled
  | ran launch report => exact hscreen.land report.output
  | _ => exact hscreen

/-- A screen that never fails stays one. -/
theorem Reaches.neverFails (h : Reaches m more n) (hscreen : m.screen.NeverFails) :
    n.screen.NeverFails := by
  induction h with
  | refl => exact hscreen
  | tail _ hstep ih => exact hstep.neverFails ih

end Machine

/-! ## Actions -/

section Actions

variable {ε σ α β : Type} {machine : σ → Machine} {deeds : List Event} {x : EStateM ε σ α}
  {f : α → EStateM ε σ β}

/-- **An action that does so much** from a state, whether it succeeds or fails. -/
abbrev DoesAt (machine : σ → Machine) (deeds : List Event) (x : EStateM ε σ α) (s : σ) : Prop :=
  Ends x s (fun _ t => (machine s).Reaches deeds (machine t))
    fun t => (machine s).Reaches deeds (machine t)

/-- An action that does nothing that counts as a deed, wherever it starts. -/
def Quiet (machine : σ → Machine) (x : EStateM ε σ α) : Prop := ∀ s, DoesAt machine [] x s

theorem quiet_pure (a : α) : Quiet machine (pure a : EStateM ε σ α) :=
  fun s => ends_pure (.refl (machine s))

/-- What follows may be done where the first action ended. -/
theorem DoesAt.bind_quiet {s : σ} (hx : DoesAt machine deeds x s)
    (hf : ∀ a, Quiet machine (f a)) : DoesAt machine deeds (x >>= f) s :=
  Ends.bind hx fun a s' hreach => (hf a s').mono (fun _ _ h => hreach.trans_quiet h)
    fun _ h => hreach.trans_quiet h

end Actions

end LineShell
