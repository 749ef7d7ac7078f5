import LineShell.Proofs.Terminal.Steps
/-!
In which order output lands.

The events of the journal say what was put on the screen and when it was flushed, so they say what
is held back at each of them (`Event.heldAfter`). On the way from one machine to another the screen
gets what the events put there, in their order, and nothing is held back when a byte is asked for or
a program is started (`Machine.Reaches.shows`). No screen has to be one that never fails: what a
screen does not take was never put on it.
-/

set_option autoImplicit false

namespace LineShell

namespace Event

/-- What an event puts on the screen. -/
def output : Event → Bytes
  | .wrote bytes => bytes
  | .printed bytes => bytes
  | _ => []

/-- What is held back after an event. What a program prints is never held back. -/
def hold (held : Bytes) : Event → Bytes
  | .wrote bytes => held ++ bytes
  | .flushed => []
  | _ => held

/-- What is held back after some events. -/
def heldAfter (held : Bytes) (events : List Event) : Bytes := events.foldl hold held

/-- The shell waits: for a key, or for a program to end. -/
def Waits : Event → Prop
  | .awaited => True
  | .launched _ => True
  | _ => False

instance (event : Event) : Decidable event.Waits := by
  cases event <;> unfold Waits <;> infer_instance

end Event

namespace Machine

/-- **Events that lead from one machine to another in order:** the screen got what they put there,
what they hold back is held back, and nothing is when the shell waits. -/
structure Shows (m : Machine) (events : List Event) (n : Machine) : Prop where
  journal : n.journal = events.reverse ++ m.journal
  contents : n.screen.contents = m.screen.contents ++ events.flatMap Event.output
  held : n.screen.pending = Event.heldAfter m.screen.pending events
  waiting : ∀ front event back, events = front ++ event :: back → event.Waits →
    Event.heldAfter m.screen.pending front = []

variable {m n o : Machine} {first more deeds : List Event}

theorem shows_refl (m : Machine) : m.Shows [] m where
  journal := rfl
  contents := (List.append_nil _).symm
  held := rfl
  waiting := by
    intro front event back hsplit
    have hne : front ++ event :: back ≠ [] := by simp
    exact absurd hsplit.symm hne

theorem Shows.trans (h : m.Shows first n) (h' : n.Shows more o) : m.Shows (first ++ more) o where
  journal := by rw [h'.journal, h.journal, List.reverse_append, List.append_assoc]
  contents := by rw [h'.contents, h.contents, List.flatMap_append, List.append_assoc]
  held := by
    rw [h'.held, h.held]
    exact List.foldl_append.symm
  waiting := by
    intro front event back hsplit hwaits
    rcases List.append_eq_append_iff.1 hsplit with ⟨rest, rfl, hrest⟩ | ⟨rest, hfirst, hrest⟩
    · -- The event is one of the later ones.
      rw [Event.heldAfter, List.foldl_append]
      have hheld := h'.waiting rest event back hrest hwaits
      rwa [h.held] at hheld
    · cases rest with
      | nil =>
        rw [List.append_nil] at hfirst
        rw [List.nil_append] at hrest
        have hheld := h'.waiting [] event back hrest.symm hwaits
        rw [h.held, hfirst] at hheld
        exact hheld
      | cons head rest =>
        rw [List.cons_append, List.cons.injEq] at hrest
        rw [← hrest.1] at hfirst
        exact h.waiting front event rest hfirst hwaits

/-- One event. -/
theorem shows_event (event : Event) (hjournal : n.journal = event :: m.journal)
    (hcontents : n.screen.contents = m.screen.contents ++ event.output)
    (hheld : n.screen.pending = event.hold m.screen.pending)
    (hwaits : event.Waits → m.screen.pending = []) : m.Shows [event] n where
  journal := hjournal
  contents := by rw [hcontents, List.flatMap_singleton]
  held := hheld
  waiting := by
    intro front event' back hsplit hwaits'
    cases front with
    | nil =>
      rw [List.nil_append, List.cons.injEq] at hsplit
      rw [← hsplit.1] at hwaits'
      exact hwaits hwaits'
    | cons head front =>
      rw [List.cons_append, List.cons.injEq] at hsplit
      have hne : front ++ event' :: back ≠ [] := by simp
      exact absurd hsplit.2.symm hne

theorem contents_accept (screen : Screen) (bytes : Bytes) :
    (screen.accept bytes).contents = screen.contents ++ screen.accepted bytes := by
  rw [Screen.contents, Screen.contents, Screen.accept, List.append_assoc]

/-- **One step shows its events.** -/
theorem Step.shows (h : Step m deeds n) : ∃ events, m.Shows events n := by
  have hsame (screen : Screen) : screen.contents = screen.contents ++ [] :=
    (List.append_nil _).symm
  cases h with
  | aside files workDir errors => exact ⟨[], rfl, hsame _, rfl, (shows_refl m).waiting⟩
  | wrote bytes =>
    refine ⟨[.wrote (m.screen.accepted bytes)], shows_event _ rfl ?_ rfl fun h => nomatch h⟩
    exact contents_accept m.screen bytes
  | flushed =>
    refine ⟨[.flushed], shows_event _ rfl ?_ rfl fun h => nomatch h⟩
    exact (contents_flushed m).trans (hsame _)
  | noticed notice =>
    exact ⟨[.noticed notice], shows_event _ rfl (hsame _) rfl fun h => nomatch h⟩
  | asked hheld => exact ⟨[.awaited], shows_event _ rfl (hsame _) rfl fun _ => hheld⟩
  | refused hheld => exact ⟨[.awaited], shows_event _ rfl (hsame _) rfl fun _ => hheld⟩
  | stranded launch hheld =>
    exact ⟨[.launched launch], shows_event _ rfl (hsame _) rfl fun _ => hheld⟩
  | ran launch report hheld =>
    have hlaunched : m.Shows [.launched launch] (m.record (.launched launch)) :=
      shows_event _ rfl (hsame _) rfl fun _ => hheld
    have hprinted : (m.record (.launched launch)).Shows [.printed report.output]
        (m.ran launch report) :=
      shows_event _ rfl (Screen.contents_land hheld report.output) rfl fun h => nomatch h
    exact ⟨_, hlaunched.trans hprinted⟩
  | dispatched words =>
    exact ⟨[.dispatched words], shows_event _ rfl (hsame _) rfl fun h => nomatch h⟩
  | logged place bytes =>
    exact ⟨[.logged place bytes], shows_event _ rfl (hsame _) rfl fun h => nomatch h⟩

/-- **On every way output lands in order,** and nothing is held back when the shell waits. -/
theorem Reaches.shows (h : Reaches m deeds n) : ∃ events, m.Shows events n := by
  induction h with
  | refl => exact ⟨[], shows_refl m⟩
  | tail _ hstep ih =>
    obtain ⟨first, hfirst⟩ := ih
    obtain ⟨more, hmore⟩ := hstep.shows
    exact ⟨first ++ more, hfirst.trans hmore⟩

end Machine

end LineShell
