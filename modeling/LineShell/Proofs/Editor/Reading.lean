import LineShell.Editor
import LineShell.Proofs.Terminal.NeverFails
/-!
Reading a line, one byte at a time.

On a terminal that never fails a byte does what `Editor.taken` says: it is a plain function on the
state of the read and on the desk. A read can be cut after any number of bytes: `Editor.readSome`
takes so many, and `Editor.resume` does the rest (`readLine_eq_resume`, `resume_of_readSome`). What
holds of the state after each byte is then shown by looking at one byte (`readSome_induction`).
-/

set_option autoImplicit false

namespace LineShell

/-! ## Loading the history -/

namespace History

/-- What loading does, case by case. -/
theorem ensureLoaded_eq (desk : Desk) : ensureLoaded desk =
    if desk.history.loaded then .ok ⟨⟩ desk
    else
      let marked := { desk.history with loaded := true }
      match desk.history.logs with
      | none => .ok ⟨⟩ { desk with history := marked }
      | some logs =>
        match desk.machine.files.read desk.machine.base logs.memory with
        | .ok bytes => .ok ⟨⟩ { desk with history := marked.recordAll (linesOfLog bytes) }
        | .error .missing => .ok ⟨⟩ { desk with history := marked }
        | .error cause =>
          .error (.historyLog logs.memory cause) { desk with history := marked } := by
  unfold ensureLoaded
  rw [get_bind]
  by_cases hloaded : desk.history.loaded
  · rw [if_pos hloaded, if_pos hloaded]
    rfl
  · rw [if_neg hloaded, if_neg hloaded]
    unfold DeskM.modifyHistory
    rw [modify_bind]
    cases desk.history.logs with
    | none => rfl
    | some logs =>
      dsimp only
      cases desk.machine.files.read desk.machine.base logs.memory with
      | ok bytes => rfl
      | error cause => cases cause <;> rfl

/-- **Loading leaves the machine alone.** -/
theorem machine_of_ensureLoaded {desk loaded : Desk} (h : ensureLoaded desk = .ok ⟨⟩ loaded) :
    loaded.machine = desk.machine := by
  rw [ensureLoaded_eq] at h
  split at h
  · cases h
    rfl
  · dsimp only at h
    split at h
    · cases h
      rfl
    · split at h
      · cases h
        rfl
      · cases h
        rfl
      · cases h

end History

/-- The characters behind the cursor, and as many steps back. -/
theorem Echo.toList_tail (b : EditBuffer) :
    (Echo.tail b).toList = b.suffix ++ List.replicate b.suffix.length '\x08' := by
  have hsteps : ∀ text : List Char, (String.join (text.map fun _ => Echo.stepBack)).toList
      = List.replicate text.length '\x08' := by
    intro text
    rw [String.toList_join]
    induction text with
    | nil => rfl
    | cons c text ih =>
      rw [List.map_cons, List.flatMap_cons, ih, List.length_cons, List.replicate_succ]
      rfl
  rw [Echo.tail, String.toList_append, String.toList_ofList, hsteps]

namespace Editor

/-! ## Parts of a read -/

/-- Reads so many bytes, or fewer if the read is over before. -/
def readSome (prompt : String) : Nat → Reading → DeskM Reading
  | n + 1, .going decoder b => do
    match ← DeskM.onTerminal Effect.nextByte with
    | none => return .going decoder b
    | some byte =>
      let reading ← take prompt byte decoder b
      readSome prompt n reading
  | _, reading => return reading

/-- The rest of a read. -/
def resume (prompt : String) : Reading → DeskM (Option String)
  | .going decoder b => do
    let unread := (← get).machine.keys.unread
    match ← readKeys prompt unread decoder b with
    | none => return none
    | some b => return some (← accept b)
  | .complete b => return some (← accept b)
  | .ended => return none

/-- Where a read starts. -/
def start (maxLength : Nat) : Reading := .going .normal (.empty (max maxLength 1))

/-- A read is prepared, and then the rest of it is all of it. -/
theorem readLine_eq_resume (maxLength : Nat) (prompt : String) :
    readLine maxLength prompt = (do prepare prompt; resume prompt (start maxLength)) := rfl

/-- The desk once a read is prepared. -/
def prepared (prompt : String) (loaded : Desk) : Desk :=
  ⟨(loaded.machine.wrote prompt).flushed, loaded.history.resetRecall⟩

theorem prepare_of_neverFails {desk loaded : Desk} (prompt : String)
    (hload : History.ensureLoaded desk = .ok ⟨⟩ loaded)
    (hscreen : desk.machine.screen.NeverFails) :
    prepare prompt desk = .ok ⟨⟩ (prepared prompt loaded) := by
  have hmachine : loaded.machine = desk.machine := History.machine_of_ensureLoaded hload
  have hloaded : loaded.machine.screen.NeverFails := by rwa [hmachine]
  have hwritten : (loaded.machine.wrote prompt).screen.NeverFails := hloaded.accept _
  unfold prepare DeskM.modifyHistory
  rw [bind_of_ok hload, modify_bind]
  refine (bind_of_ok (DeskM.write_of_neverFails ?_ prompt)).trans ?_
  · exact hloaded
  · exact DeskM.flush_of_neverFails hwritten

theorem sameInside_prepared (prompt : String) (loaded : Desk) :
    loaded.machine.SameInside (prepared prompt loaded).machine :=
  (Machine.sameInside_wrote _ _).trans (Machine.sameInside_flushed _)

/-! ## One byte -/

/-- The machine after an echo, if there is one. -/
def echoed (m : Machine) : Option String → Machine
  | none => m
  | some text => m.wrote text

/-- The desk after a key was pressed. -/
def struck (desk : Desk) (s : Stroke) : Desk := ⟨(echoed desk.machine s.echo).flushed, s.history⟩

/-- **What one byte does** on a screen that never fails. -/
def taken (prompt : String) (byte : UInt8) (decoder : Decoder) (b : EditBuffer) (desk : Desk) :
    Reading × Desk :=
  let next := (decoder.step byte).1
  match (decoder.step byte).2 with
  | none => (.going next b, desk)
  | some .endOfInput =>
    if b.isEmpty then (.ended, { desk with machine := desk.machine.wrote "\n" })
    else (.going next b, desk)
  | some key =>
    let s := stroke prompt key b desk.history
    (if next = .done then .complete s.buffer else .going next s.buffer, struck desk s)

variable {prompt : String} {byte : UInt8} {decoder : Decoder} {b : EditBuffer} {desk : Desk}

/-- A byte that completes no key only moves the decoder on. -/
theorem taken_of_no_key {next : Decoder} (hstep : decoder.step byte = (next, none)) :
    taken prompt byte decoder b desk = (.going next b, desk) := by
  unfold taken
  rw [hstep]

/-- A byte that completes a key presses it. -/
theorem taken_of_key {next : Decoder} {key : Key} (hstep : decoder.step byte = (next, some key))
    (hkey : key ≠ .endOfInput) :
    taken prompt byte decoder b desk =
      (if next = .done then .complete (stroke prompt key b desk.history).buffer
        else .going next (stroke prompt key b desk.history).buffer,
        struck desk (stroke prompt key b desk.history)) := by
  unfold taken
  rw [hstep]
  cases key with
  | endOfInput => exact absurd rfl hkey
  | char c => rfl
  | backspace => rfl
  | enter => rfl
  | up => rfl
  | down => rfl
  | left => rfl
  | right => rfl

/-- The key that ends the input ends a read with nothing to lose, and no other one. -/
theorem taken_of_end {next : Decoder} (hstep : decoder.step byte = (next, some .endOfInput)) :
    taken prompt byte decoder b desk =
      if b.isEmpty then (.ended, { desk with machine := desk.machine.wrote "\n" })
      else (.going next b, desk) := by
  unfold taken
  rw [hstep]

theorem echoed_neverFails {m : Machine} (h : m.screen.NeverFails) (echo : Option String) :
    (echoed m echo).screen.NeverFails := by
  cases echo with
  | none => exact h
  | some text => exact h.accept (bytesOf text)

theorem press_of_neverFails (h : desk.machine.screen.NeverFails) (key : Key) :
    press prompt key b desk = .ok (stroke prompt key b desk.history).buffer
      ⟨echoed desk.machine (stroke prompt key b desk.history).echo,
        (stroke prompt key b desk.history).history⟩ := by
  unfold press
  rw [get_bind]
  generalize stroke prompt key b desk.history = s
  obtain ⟨b', history, echo⟩ := s
  unfold DeskM.modifyHistory
  dsimp only
  rw [modify_bind]
  cases echo with
  | none => rfl
  | some text =>
    have hscreen : (Desk.mk desk.machine history).machine.screen.NeverFails := h
    exact bind_of_ok (DeskM.write_of_neverFails hscreen text)

theorem take_of_key {next : Decoder} {key : Key} (hstep : decoder.step byte = (next, some key))
    (hkey : key ≠ .endOfInput) : take prompt byte decoder b = (do
      let b ← press prompt key b
      DeskM.onTerminal Effect.flush
      return if next = .done then .complete b else .going next b) := by
  unfold take
  rw [hstep]
  cases key with
  | endOfInput => exact absurd rfl hkey
  | char c => rfl
  | backspace => rfl
  | enter => rfl
  | up => rfl
  | down => rfl
  | left => rfl
  | right => rfl

theorem take_of_neverFails (h : desk.machine.screen.NeverFails) :
    take prompt byte decoder b desk
      = .ok (taken prompt byte decoder b desk).1 (taken prompt byte decoder b desk).2 := by
  rcases hstep : decoder.step byte with ⟨next, key⟩
  cases key with
  | none =>
    rw [taken_of_no_key hstep, take, hstep]
    rfl
  | some key =>
    by_cases hkey : key = .endOfInput
    · rw [hkey] at hstep
      rw [taken_of_end hstep, take, hstep]
      by_cases hempty : b.isEmpty = true
      · rw [if_pos hempty]
        dsimp only
        rw [if_pos hempty]
        exact bind_of_ok (DeskM.write_of_neverFails h "\n")
      · rw [if_neg hempty]
        dsimp only
        rw [if_neg hempty]
        rfl
    · rw [take_of_key hstep hkey, taken_of_key hstep hkey, bind_of_ok (press_of_neverFails h key)]
      exact bind_of_ok (DeskM.flush_of_neverFails (echoed_neverFails h _))

/-! ### What a byte leaves alone -/

theorem sameInside_struck (desk : Desk) (s : Stroke) :
    desk.machine.SameInside (struck desk s).machine := by
  refine .trans ?_ (Machine.sameInside_flushed _)
  cases s.echo with
  | none => exact .refl _
  | some text => exact Machine.sameInside_wrote _ _

theorem sameInside_taken :
    desk.machine.SameInside (taken prompt byte decoder b desk).2.machine := by
  unfold taken
  dsimp only
  split
  · exact .refl _
  · split
    · exact Machine.sameInside_wrote _ _
    · exact .refl _
  · exact sameInside_struck _ _

theorem taken_neverFails (h : desk.machine.screen.NeverFails) :
    (taken prompt byte decoder b desk).2.machine.screen.NeverFails := by
  unfold taken
  dsimp only
  split
  · exact h
  · split
    · exact h.accept _
    · exact h
  · exact (echoed_neverFails h _).settled

theorem bytesOf_eq (text : String) : bytesOf text = Utf8.encode text.toList := rfl

theorem contents_struck (h : desk.machine.screen.NeverFails) (s : Stroke) :
    (struck desk s).machine.screen.contents
      = desk.machine.screen.contents ++ Utf8.encode (s.echo.getD "").toList := by
  rw [struck, Machine.contents_flushed]
  cases s.echo with
  | none => exact (List.append_nil _).symm
  | some text => exact Machine.contents_wrote h text

/-! ## Many bytes -/

/-- A terminal that never fails, with so many bytes to read at least. -/
structure Ready (desk : Desk) (n : Nat) : Prop where
  screen : desk.machine.screen.NeverFails
  keys : desk.machine.keys.failsAfter = none
  unread : n ≤ desk.machine.keys.unread.length

theorem ready_prepared {loaded : Desk} {n : Nat} (h : Ready loaded n) :
    Ready (prepared prompt loaded) n := by
  have hsame : loaded.machine.SameInside (prepared prompt loaded).machine :=
    sameInside_prepared prompt loaded
  refine ⟨(h.screen.accept _).settled, ?_, ?_⟩
  · rw [hsame.keys]
    exact h.keys
  · rw [hsame.keys]
    exact h.unread

/-- The desk after a byte was asked for. -/
def awaited (desk : Desk) : Desk := { desk with machine := desk.machine.awaited }

theorem Ready.exists_byte {n : Nat} (h : Ready desk (n + 1)) :
    ∃ byte, desk.machine.keys.unread.head? = some byte := by
  have hlen := h.unread
  cases hunread : desk.machine.keys.unread with
  | nil =>
    rw [hunread, List.length_nil] at hlen
    omega
  | cons byte rest => exact ⟨byte, rfl⟩

theorem Ready.taken {n : Nat} (h : Ready desk (n + 1)) :
    Ready (taken prompt byte decoder b (awaited desk)).2 n := by
  have hsame : (awaited desk).machine.SameInside
      (Editor.taken prompt byte decoder b (awaited desk)).2.machine := sameInside_taken
  have hscreen : (awaited desk).machine.screen.NeverFails := h.screen
  have hunread := h.unread
  refine ⟨taken_neverFails hscreen, ?_, ?_⟩
  · rw [hsame.keys]
    exact h.keys
  · rw [hsame.keys]
    show n ≤ desk.machine.keys.unread.tail.length
    rw [List.length_tail]
    omega

theorem readSome_succ {n : Nat} (h : Ready desk (n + 1))
    (hbyte : desk.machine.keys.unread.head? = some byte) :
    readSome prompt (n + 1) (.going decoder b) desk
      = readSome prompt n (taken prompt byte decoder b (awaited desk)).1
          (taken prompt byte decoder b (awaited desk)).2 := by
  have hscreen : (awaited desk).machine.screen.NeverFails := h.screen
  rw [readSome, bind_of_ok (DeskM.nextByte_of_failsAfter h.keys), hbyte]
  exact bind_of_ok (take_of_neverFails hscreen)

/-- **What holds after each byte.** A statement that one byte keeps is kept by any number of them,
and so many bytes can be read if they are there. -/
theorem readSome_induction {Keeps : Reading → Desk → Prop}
    (step : ∀ byte decoder b desk, Keeps (.going decoder b) desk →
      desk.machine.screen.NeverFails → desk.machine.keys.unread.head? = some byte →
      Keeps (taken prompt byte decoder b (awaited desk)).1
        (taken prompt byte decoder b (awaited desk)).2)
    {n : Nat} {reading : Reading} (hready : Ready desk n) (hstart : Keeps reading desk) :
    ∃ later shown, readSome prompt n reading desk = .ok later shown ∧ Keeps later shown := by
  induction n generalizing reading desk with
  | zero => exact ⟨reading, desk, by rw [readSome.eq_def]; rfl, hstart⟩
  | succ n ih =>
    cases reading with
    | going decoder b =>
      obtain ⟨byte, hbyte⟩ := hready.exists_byte
      rw [readSome_succ hready hbyte]
      exact ih hready.taken (step byte decoder b desk hstart hready.screen hbyte)
    | complete b => exact ⟨.complete b, desk, rfl, hstart⟩
    | ended => exact ⟨.ended, desk, rfl, hstart⟩

theorem unread_of_head? {unread : Bytes} (h : unread.head? = some byte) :
    unread = byte :: unread.tail := by
  cases unread with
  | nil => cases h
  | cons c rest =>
    cases h
    rfl

theorem readKeys_cons (h : Ready desk 1) (hbyte : desk.machine.keys.unread.head? = some byte)
    (first : UInt8) (rest : Bytes) {reading : Reading} {later : Desk}
    (htaken : taken prompt byte decoder b (awaited desk) = (reading, later)) :
    readKeys prompt (first :: rest) decoder b desk =
      match reading with
      | .going decoder b => readKeys prompt rest decoder b later
      | .complete b => .ok (some b) later
      | .ended => .ok none later := by
  have hscreen : (awaited desk).machine.screen.NeverFails := h.screen
  have htake : take prompt byte decoder b (awaited desk) = .ok reading later := by
    rw [take_of_neverFails hscreen, htaken]
  rw [readKeys, bind_of_ok (DeskM.nextByte_of_failsAfter h.keys), hbyte]
  dsimp only
  rw [show ({ desk with machine := desk.machine.awaited } : Desk) = awaited desk from rfl,
    bind_of_ok htake]
  cases reading <;> rfl

theorem resume_going (h : Ready desk 1) (hbyte : desk.machine.keys.unread.head? = some byte) :
    resume prompt (.going decoder b) desk
      = resume prompt (taken prompt byte decoder b (awaited desk)).1
          (taken prompt byte decoder b (awaited desk)).2 := by
  have hsame : (awaited desk).machine.SameInside
      (taken prompt byte decoder b (awaited desk)).2.machine := sameInside_taken
  have hrest : (taken prompt byte decoder b (awaited desk)).2.machine.keys.unread
      = desk.machine.keys.unread.tail := by
    rw [hsame.keys]
    rfl
  cases htaken : taken prompt byte decoder b (awaited desk) with
  | mk reading later =>
    rw [htaken] at hrest
    dsimp only at hrest ⊢
    have hkeys := readKeys_cons h hbyte byte desk.machine.keys.unread.tail htaken
    rw [resume, get_bind, unread_of_head? hbyte]
    cases reading with
    | going decoder b =>
      rw [resume, get_bind, hrest]
      exact bind_congr hkeys
    | complete line =>
      have hdone : readKeys prompt (byte :: desk.machine.keys.unread.tail) decoder b desk
          = .ok (some line) later := hkeys
      rw [bind_of_ok hdone]
      rfl
    | ended =>
      have hdone : readKeys prompt (byte :: desk.machine.keys.unread.tail) decoder b desk
          = .ok none later := hkeys
      rw [bind_of_ok hdone]
      rfl

/-- **A read can be cut.** After some of its bytes, the rest of it is what was left before. -/
theorem resume_of_readSome {n : Nat} {reading later : Reading} {shown : Desk}
    (hready : Ready desk n) (h : readSome prompt n reading desk = .ok later shown) :
    resume prompt reading desk = resume prompt later shown := by
  induction n generalizing reading desk with
  | zero =>
    rw [readSome.eq_def] at h
    cases h
    rfl
  | succ n ih =>
    cases reading with
    | going decoder b =>
      obtain ⟨byte, hbyte⟩ := hready.exists_byte
      rw [readSome_succ hready hbyte] at h
      have hone : Ready desk 1 := ⟨hready.screen, hready.keys, by have := hready.unread; omega⟩
      rw [resume_going hone hbyte]
      exact ih hready.taken h
    | complete b =>
      cases h
      rfl
    | ended =>
      cases h
      rfl

end Editor

end LineShell
