import LineShell.Proofs.Editor.Waiting
import LineShell.Proofs.Editor.Extent
import LineShell.Proofs.Terminal.Requests
/-!
The course of a read.

What a read will ask of its terminal is settled by the bytes that it will be given: the prompt, then
for each byte the byte itself, what its key echoes, and that this is shown (`Editor.course`). So a
read on any terminal is one of two things. Either the terminal grants all of it, and the read gives
its line and enters it into the history; or the terminal refuses something, and the read fails there
with a history in which at most the recall has moved (`Editor.asks_readLine`). That a line enters
the history behind the last thing that can fail is what this says, for every point of failure.
-/

set_option autoImplicit false

namespace LineShell

namespace Effect

variable {m n : Machine} {requests : List Request}

/-- A terminal that was asked for keys has given as many bytes. -/
theorem unread_of_askAll (hask : askAll requests m = .ok () n) :
    n.keys.unread = m.keys.unread.drop (requests.count .key) := by
  induction requests generalizing m with
  | nil =>
    cases hask
    rfl
  | cons request requests ih =>
    obtain ⟨⟨⟩, m', hfirst, hrest⟩ := bind_eq_ok.1 hask
    rw [ih hrest, ((request.ends_ask m).ok _ _ hfirst).2.unread, List.drop_drop,
      ← List.count_append, List.singleton_append]

end Effect

/-! ## Actions that ask -/

/-- **An action at the desk that asks so much of the terminal.** If the terminal grants it, the
action gives a value and leaves a history; if not, it fails as the terminal does, and the history is
what it was but for the position of the recall. -/
structure Asks {α : Type} (x : DeskM α) (desk : Desk) (requests : List Request) (a : α)
    (left : History) : Prop where
  granted : ∀ m, Effect.askAll requests desk.machine = .ok () m → x desk = .ok a ⟨m, left⟩
  refused : ∀ cause m, Effect.askAll requests desk.machine = .error cause m →
    ∃ moved, x desk = .error (.terminal cause) ⟨m, moved⟩ ∧
      moved.resetRecall = desk.history.resetRecall

section Asking

variable {α β : Type} {x : DeskM α} {f : α → DeskM β} {desk : Desk} {requests more : List Request}
  {a : α} {b : β} {left later : History}

theorem asks_pure (a : α) (desk : Desk) : Asks (pure a) desk [] a desk.history := by
  refine ⟨fun m hm => ?_, fun cause m hm => ?_⟩
  · cases hm
    rfl
  · cases hm

/-- What was asked first may have moved the recall. -/
theorem Asks.bind (hx : Asks x desk requests a left)
    (hleft : left.resetRecall = desk.history.resetRecall)
    (hf : ∀ m, Effect.askAll requests desk.machine = .ok () m → Asks (f a) ⟨m, left⟩ more b later) :
    Asks (x >>= f) desk (requests ++ more) b later := by
  rcases hfirst : Effect.askAll requests desk.machine with ⟨⟨⟩, m⟩ | ⟨cause, m⟩
  · have hall : Effect.askAll (requests ++ more) desk.machine = Effect.askAll more m := by
      rw [Effect.askAll_append, bind_of_ok hfirst]
    refine ⟨fun n hn => ?_, fun cause n hn => ?_⟩
    · rw [hall] at hn
      rw [bind_of_ok (hx.granted m hfirst)]
      exact (hf m hfirst).granted n hn
    · rw [hall] at hn
      obtain ⟨moved, herror, hmoved⟩ := (hf m hfirst).refused cause n hn
      rw [bind_of_ok (hx.granted m hfirst)]
      exact ⟨moved, herror, hmoved.trans hleft⟩
  · have hall : Effect.askAll (requests ++ more) desk.machine = .error cause m := by
      rw [Effect.askAll_append, bind_of_error hfirst]
    obtain ⟨moved, herror, hmoved⟩ := hx.refused cause m hfirst
    refine ⟨fun n hn => ?_, fun cause' n hn => ?_⟩
    · rw [hall] at hn
      cases hn
    · rw [hall] at hn
      cases hn
      exact ⟨moved, bind_of_error herror, hmoved⟩

/-- Something that is done before anything is asked. -/
theorem Asks.bind_of_ok {desk' : Desk} (hx : x desk = .ok a desk')
    (hmachine : desk'.machine = desk.machine)
    (hhistory : desk'.history.resetRecall = desk.history.resetRecall)
    (hf : Asks (f a) desk' requests b left) : Asks (x >>= f) desk requests b left := by
  refine ⟨fun m hm => ?_, fun cause m hm => ?_⟩
  · rw [LineShell.bind_of_ok hx]
    exact hf.granted m (hmachine ▸ hm)
  · rw [LineShell.bind_of_ok hx]
    obtain ⟨moved, herror, hmoved⟩ := hf.refused cause m (hmachine ▸ hm)
    exact ⟨moved, herror, hmoved.trans hhistory⟩

/-- Something that asks for nothing any more, and may change the history. -/
theorem Asks.bind_done (hx : Asks x desk requests a left)
    (hf : ∀ m, f a ⟨m, left⟩ = .ok b ⟨m, later⟩) : Asks (x >>= f) desk requests b later := by
  refine ⟨fun m hm => ?_, fun cause m hm => ?_⟩
  · rw [LineShell.bind_of_ok (hx.granted m hm)]
    exact hf m
  · obtain ⟨moved, herror, hmoved⟩ := hx.refused cause m hm
    exact ⟨moved, bind_of_error herror, hmoved⟩

theorem askAll_singleton (request : Request) : Effect.askAll [request] = request.ask :=
  bind_pure request.ask

/-- A single request. -/
theorem asks_onTerminal (request : Request) (desk : Desk) :
    Asks (DeskM.onTerminal request.ask) desk [request] () desk.history := by
  refine ⟨fun m hm => ?_, fun cause m hm => ?_⟩
  · rw [askAll_singleton] at hm
    exact DeskM.onMachine_of_ok hm
  · rw [askAll_singleton] at hm
    exact ⟨desk.history, DeskM.onMachine_of_error hm, rfl⟩

/-- Asking for a byte. -/
theorem asks_nextByte (desk : Desk) : Asks (DeskM.onTerminal Effect.nextByte) desk [.key]
    desk.machine.keys.unread.head? desk.history := by
  have hbyte := Effect.nextByte_eq desk.machine
  refine ⟨fun m hm => ?_, fun cause m hm => ?_⟩
  · rw [askAll_singleton] at hm
    obtain ⟨byte, m', hnext, hpure⟩ := bind_eq_ok.1 hm
    cases hpure
    refine DeskM.onMachine_of_ok (hnext.trans ?_)
    rw [hnext] at hbyte
    split at hbyte
    · cases hbyte
    · rw [(EStateM.Result.ok.inj hbyte).1]
  · rw [askAll_singleton] at hm
    rcases hnext : Effect.nextByte desk.machine with ⟨byte, m'⟩ | ⟨cause', m'⟩
    · rw [Request.ask, LineShell.bind_of_ok hnext] at hm
      cases hm
    · rw [Request.ask, bind_of_error hnext] at hm
      cases hm
      exact ⟨desk.history, DeskM.onMachine_of_error hnext, rfl⟩

end Asking

namespace Editor

/-! ## One byte -/

/-- What one byte asks of the terminal, and what it leads to. -/
structure Turn where
  requests : List Request
  reading : Reading
  history : History

/-- What an echo asks for. -/
def echoing (echo : Option String) : List Request := (echo.map Request.write).toList

/-- **The turn of a byte.** -/
def turn (prompt : String) (byte : UInt8) (decoder : Decoder) (b : EditBuffer) (h : History) :
    Turn :=
  let next := (decoder.step byte).1
  match (decoder.step byte).2 with
  | none => ⟨[], .going next b, h⟩
  | some .endOfInput =>
    if b.isEmpty then ⟨[.write "\n"], .ended, h⟩ else ⟨[], .going next b, h⟩
  | some key =>
    let s := stroke prompt key b h
    ⟨echoing s.echo ++ [.flush],
      if next = .done then .complete s.buffer else .going next s.buffer, s.history⟩

variable {prompt : String} {byte : UInt8} {decoder : Decoder} {b : EditBuffer} {h : History}
  {desk : Desk}

theorem turn_of_key {next : Decoder} {key : Key} (hstep : decoder.step byte = (next, some key))
    (hkey : key ≠ .endOfInput) : turn prompt byte decoder b h =
      ⟨echoing (stroke prompt key b h).echo ++ [.flush],
        if next = .done then .complete (stroke prompt key b h).buffer
          else .going next (stroke prompt key b h).buffer, (stroke prompt key b h).history⟩ := by
  unfold turn
  rw [hstep]
  cases key with
  | endOfInput => exact absurd rfl hkey
  | _ => rfl

/-- A turn moves the recall, and nothing else in the history. -/
theorem resetRecall_turn (prompt : String) (byte : UInt8) (decoder : Decoder) (b : EditBuffer)
    (h : History) : (turn prompt byte decoder b h).history.resetRecall = h.resetRecall := by
  unfold turn
  dsimp only
  split
  · rfl
  · split <;> rfl
  · exact resetRecall_stroke prompt _ b h

/-- A turn takes no byte beside its own. -/
theorem count_turn (prompt : String) (byte : UInt8) (decoder : Decoder) (b : EditBuffer)
    (h : History) : (turn prompt byte decoder b h).requests.count .key = 0 := by
  unfold turn
  dsimp only
  split
  · rfl
  · split <;> rfl
  · generalize stroke prompt _ b h = s
    rcases s.echo with - | text <;> rfl

theorem asks_press (key : Key) (b : EditBuffer) (desk : Desk) :
    Asks (press prompt key b) desk (echoing (stroke prompt key b desk.history).echo)
      (stroke prompt key b desk.history).buffer (stroke prompt key b desk.history).history := by
  have hreset := resetRecall_stroke prompt key b desk.history
  have hhistory : DeskM.modifyHistory (fun _ => (stroke prompt key b desk.history).history) desk
      = .ok ⟨⟩ { desk with history := (stroke prompt key b desk.history).history } := rfl
  unfold press
  refine Asks.bind_of_ok (a := desk) rfl rfl rfl ?_
  generalize stroke prompt key b desk.history = s at hreset hhistory
  obtain ⟨b', history, echo⟩ := s
  refine Asks.bind_of_ok hhistory rfl hreset ?_
  rcases echo with - | text
  · exact asks_pure b' _
  · exact (asks_onTerminal (.write text) _).bind_done fun m => rfl

/-- **One byte** asks for what its turn says. -/
theorem asks_take (prompt : String) (byte : UInt8) (decoder : Decoder) (b : EditBuffer)
    (desk : Desk) :
    Asks (take prompt byte decoder b) desk (turn prompt byte decoder b desk.history).requests
      (turn prompt byte decoder b desk.history).reading
      (turn prompt byte decoder b desk.history).history := by
  rcases hstep : decoder.step byte with ⟨next, - | key⟩
  · unfold take turn
    rw [hstep]
    exact asks_pure _ desk
  · by_cases hkey : key = .endOfInput
    · subst hkey
      unfold take turn
      rw [hstep]
      dsimp only
      by_cases hempty : b.isEmpty = true
      · rw [if_pos hempty, if_pos hempty]
        exact (asks_onTerminal (.write "\n") desk).bind_done fun m => rfl
      · rw [if_neg hempty, if_neg hempty]
        exact asks_pure _ desk
    · rw [take_of_key hstep hkey, turn_of_key hstep hkey]
      refine (asks_press key b desk).bind (resetRecall_stroke prompt key b _) fun m _ => ?_
      exact (asks_onTerminal .flush _).bind_done fun m' => rfl

/-! ## Every byte -/

/-- What is asked of the terminal over a read, what it comes to, and the history behind it. -/
structure Course where
  requests : List Request
  buffer : Option EditBuffer
  history : History

/-- A course behind other requests. -/
def Course.behind (c : Course) (requests : List Request) : Course :=
  { c with requests := requests ++ c.requests }

/-- **The course of reading keys,** one turn after the other. -/
def course (prompt : String) : Bytes → Decoder → EditBuffer → History → Course
  | [], _, b, h => ⟨[.key], leftover b, h⟩
  | byte :: unread, decoder, b, h =>
    let turn := turn prompt byte decoder b h
    match turn.reading with
    | .going decoder b =>
      (course prompt unread decoder b turn.history).behind (.key :: turn.requests)
    | .complete b => ⟨.key :: turn.requests, some b, turn.history⟩
    | .ended => ⟨.key :: turn.requests, none, turn.history⟩

theorem Course.behind_behind (c : Course) (requests more : List Request) :
    (c.behind more).behind requests = c.behind (requests ++ more) := by
  rw [Course.behind, Course.behind, Course.behind, List.append_assoc]

theorem resetRecall_course (prompt : String) (unread : Bytes) (decoder : Decoder) (b : EditBuffer)
    (h : History) : (course prompt unread decoder b h).history.resetRecall = h.resetRecall := by
  induction unread generalizing decoder b h with
  | nil => rfl
  | cons byte unread ih =>
    have hturn := resetRecall_turn prompt byte decoder b h
    rw [course]
    split
    · exact (ih _ _ _).trans hturn
    · exact hturn
    · exact hturn

/-- **Reading keys** asks for what its course says. -/
theorem asks_readKeys (prompt : String) (unread : Bytes) (decoder : Decoder) (b : EditBuffer)
    (hunread : desk.machine.keys.unread = unread) :
    Asks (readKeys prompt unread decoder b) desk
      (course prompt unread decoder b desk.history).requests
      (course prompt unread decoder b desk.history).buffer
      (course prompt unread decoder b desk.history).history := by
  induction unread generalizing decoder b desk with
  | nil => exact (asks_nextByte desk).bind_done fun m => rfl
  | cons byte unread ih =>
    have hbyte := asks_nextByte desk
    rw [hunread, List.head?_cons] at hbyte
    have hreset := resetRecall_turn prompt byte decoder b desk.history
    have hcount := count_turn prompt byte decoder b desk.history
    -- The byte is taken by the request for it, and by nothing in its turn.
    have hrest : ∀ m m', Effect.askAll [.key] desk.machine = .ok () m →
        Effect.askAll (turn prompt byte decoder b desk.history).requests m = .ok () m' →
        m'.keys.unread = unread := by
      intro m m' hm hm'
      rw [Effect.unread_of_askAll hm', hcount, Effect.unread_of_askAll hm, hunread]
      rfl
    have htake (m : Machine) : Asks (take prompt byte decoder b) ⟨m, desk.history⟩
        (turn prompt byte decoder b desk.history).requests
        (turn prompt byte decoder b desk.history).reading
        (turn prompt byte decoder b desk.history).history := asks_take prompt byte decoder b _
    rw [readKeys, course]
    generalize turn prompt byte decoder b desk.history = t at hreset hrest htake ⊢
    obtain ⟨requests, reading, history⟩ := t
    cases reading with
    | going decoder' b' =>
      show Asks _ desk ([.key] ++ (requests ++ (course prompt unread decoder' b' history).requests))
        _ _
      refine hbyte.bind rfl fun m hm => (htake m).bind hreset fun m' hm' => ?_
      exact ih decoder' b' (hrest m m' hm hm')
    | complete b' =>
      refine hbyte.bind rfl fun m hm => ?_
      dsimp only
      exact (htake m).bind_done fun m' => rfl
    | ended =>
      refine hbyte.bind rfl fun m hm => ?_
      dsimp only
      exact (htake m).bind_done fun m' => rfl

/-! ## From the prompt to the line -/

/-- **The course of a read,** its prompt first. -/
def courseOf (maxLength : Nat) (prompt : String) (unread : Bytes) (h : History) : Course :=
  (course prompt unread .normal (.empty (max maxLength 1)) h.resetRecall).behind
    [.write prompt, .flush]

/-- The line that a course gives, finished. -/
def Course.line (c : Course) : Option String := c.buffer.map fun b => finishLine b.line

/-- What a course comes to is accepted, for which nothing is asked. -/
theorem accept_of_course (c : Course) (m : Machine) :
    (do match c.buffer with
        | none => return none
        | some b => return some (← accept b) : DeskM (Option String)) ⟨m, c.history⟩
      = .ok c.line ⟨m, entered c.history c.line⟩ := by
  rw [Course.line]
  rcases c.buffer with - | b
  · rfl
  · have haccept := accept_eq b ⟨m, c.history⟩
    rw [Option.map_some]
    -- The line is a name from here on; what it is made from would be unfolded otherwise.
    generalize finishLine b.line = line at haccept ⊢
    exact bind_of_ok haccept

/-- **A read whose history is loaded** asks for what its course says. -/
theorem asks_readLine (maxLength : Nat) (prompt : String) (hloaded : desk.history.loaded = true) :
    let c := courseOf maxLength prompt desk.machine.keys.unread desk.history
    Asks (readLine maxLength prompt) desk c.requests c.line (entered c.history c.line) := by
  intro c
  have hprepare : Asks (prepare prompt) desk [.write prompt, .flush] ⟨⟩
      desk.history.resetRecall := by
    unfold prepare
    refine Asks.bind_of_ok (History.ensureLoaded_of_loaded hloaded) rfl rfl ?_
    have hmodify : DeskM.modifyHistory History.resetRecall desk
        = .ok ⟨⟩ { desk with history := desk.history.resetRecall } := rfl
    refine Asks.bind_of_ok hmodify rfl rfl ?_
    exact (asks_onTerminal (.write prompt) _).bind rfl fun m _ => asks_onTerminal .flush _
  refine hprepare.bind rfl fun m hm => ?_
  have hunread : m.keys.unread = desk.machine.keys.unread := Effect.unread_of_askAll hm
  have hkeys := @asks_readKeys ⟨m, desk.history.resetRecall⟩ prompt _ .normal
    (.empty (max maxLength 1)) hunread
  refine Asks.bind_of_ok (a := ⟨m, desk.history.resetRecall⟩) rfl rfl rfl ?_
  dsimp only at hkeys ⊢
  rw [hunread]
  exact hkeys.bind_done fun m' => accept_of_course _ m'

/-- Where only the recall has moved the lines are the same. -/
theorem entries_of_resetRecall {h h' : History} (hreset : h'.resetRecall = h.resetRecall) :
    h'.entries = h.entries := by
  show h'.resetRecall.entries = h.resetRecall.entries
  rw [hreset]

theorem history_courseOf (maxLength : Nat) (prompt : String) (unread : Bytes) (h : History) :
    (courseOf maxLength prompt unread h).history.resetRecall = h.resetRecall :=
  resetRecall_course prompt unread .normal _ h.resetRecall

/-- **A read that gives no line leaves the lines of the history as they were loaded,** whether the
input ended or the terminal failed, and wherever it failed. -/
theorem entries_readLine (maxLength : Nat) (prompt : String) (desk : Desk)
    (hnone : ∀ line later, readLine maxLength prompt desk ≠ .ok (some line) later) :
    (endOf (readLine maxLength prompt desk)).history.entries
      = (endOf (History.ensureLoaded desk)).history.entries := by
  rcases hload : History.ensureLoaded desk with ⟨⟨⟩, loaded⟩ | ⟨e, loaded⟩
  · have hloaded : loaded.history.loaded = true := (History.ends_ensureLoaded desk).ok _ _ hload
    have hasks := asks_readLine maxLength prompt hloaded
    rw [readLine_of_ensureLoaded maxLength prompt hload] at hnone ⊢
    have hhistory := history_courseOf maxLength prompt loaded.machine.keys.unread loaded.history
    generalize courseOf maxLength prompt loaded.machine.keys.unread loaded.history = c
      at hasks hhistory
    rcases hask : Effect.askAll c.requests loaded.machine with ⟨⟨⟩, m⟩ | ⟨cause, m⟩
    · have hread := hasks.granted m hask
      rcases hline : c.line with - | line
      · rw [hline] at hread
        rw [hread]
        exact entries_of_resetRecall hhistory
      · rw [hline] at hread
        exact absurd hread (hnone line _)
    · obtain ⟨moved, hread, hmoved⟩ := hasks.refused cause m hask
      rw [hread]
      exact entries_of_resetRecall hmoved
  · have hread : readLine maxLength prompt desk = .error e loaded :=
      bind_of_error (bind_of_error hload)
    rw [hread]
    rfl

/-- **A read comes to its end where the terminal grants all that it asks for,** and nowhere else. -/
theorem readLine_eq_ok_iff (maxLength : Nat) (prompt : String) {desk loaded : Desk}
    {line : Option String} {later : Desk} (hload : History.ensureLoaded desk = .ok ⟨⟩ loaded) :
    readLine maxLength prompt desk = .ok line later ↔
      let c := courseOf maxLength prompt desk.machine.keys.unread loaded.history
      Effect.askAll c.requests desk.machine = .ok () later.machine ∧ line = c.line ∧
        later.history = entered c.history c.line := by
  have hmachine : loaded.machine = desk.machine := History.machine_of_ensureLoaded hload
  have hloaded : loaded.history.loaded = true := (History.ends_ensureLoaded desk).ok _ _ hload
  have hasks := asks_readLine maxLength prompt hloaded
  dsimp only at hasks ⊢
  rw [readLine_of_ensureLoaded maxLength prompt hload, ← hmachine]
  generalize courseOf maxLength prompt loaded.machine.keys.unread loaded.history = c at hasks ⊢
  constructor
  · intro hread
    rcases hask : Effect.askAll c.requests loaded.machine with ⟨⟨⟩, m⟩ | ⟨cause, m⟩
    · rw [hasks.granted m hask] at hread
      cases hread
      exact ⟨rfl, rfl, rfl⟩
    · obtain ⟨moved, herror, -⟩ := hasks.refused cause m hask
      rw [herror] at hread
      cases hread
  · rintro ⟨hask, rfl, hhistory⟩
    rw [hasks.granted later.machine hask, ← hhistory]

/-- A read whose terminal grants what it asks for gives its line and enters it. -/
theorem readLine_of_grants (maxLength : Nat) (prompt : String) {desk loaded : Desk}
    (hload : History.ensureLoaded desk = .ok ⟨⟩ loaded)
    (hgrants : desk.machine.Grants
      (courseOf maxLength prompt desk.machine.keys.unread loaded.history).requests) :
    let c := courseOf maxLength prompt desk.machine.keys.unread loaded.history
    ∃ later, readLine maxLength prompt desk = .ok c.line later ∧
      later.history = entered c.history c.line := by
  intro c
  obtain ⟨m, hask⟩ := (Effect.exists_askAll_iff _ _).2 hgrants
  exact ⟨⟨m, entered c.history c.line⟩,
    (readLine_eq_ok_iff maxLength prompt hload).2 ⟨hask, rfl, rfl⟩, rfl⟩

/-- **Whatever a read comes to,** it has done nothing to the machine but ask its terminal. -/
theorem told_readLine (maxLength : Nat) (prompt : String) (desk : Desk) :
    desk.machine.Told (endOf (readLine maxLength prompt desk)).machine := by
  rcases hload : History.ensureLoaded desk with ⟨⟨⟩, loaded⟩ | ⟨e, loaded⟩
  · have hmachine : loaded.machine = desk.machine := History.machine_of_ensureLoaded hload
    have hloaded : loaded.history.loaded = true := (History.ends_ensureLoaded desk).ok _ _ hload
    have hasks := asks_readLine maxLength prompt hloaded
    rw [readLine_of_ensureLoaded maxLength prompt hload, ← hmachine]
    generalize courseOf maxLength prompt loaded.machine.keys.unread loaded.history = c at hasks
    have htold := Effect.told_askAll c.requests loaded.machine
    rcases hask : Effect.askAll c.requests loaded.machine with ⟨⟨⟩, m⟩ | ⟨cause, m⟩
    · rw [hasks.granted m hask]
      exact htold.ok _ _ hask
    · obtain ⟨moved, hread, -⟩ := hasks.refused cause m hask
      rw [hread]
      exact htold.error _ _ hask
  · have hread : readLine maxLength prompt desk = .error e loaded :=
      bind_of_error (bind_of_error hload)
    have hmachine := ((History.ends_ensureLoaded desk).error _ _ hload).1
    rw [hread]
    show desk.machine.Told loaded.machine
    rw [hmachine]
    exact refl_of Machine.Told desk.machine

end Editor

end LineShell
