import LineShell.Proofs.Editor.Decoding
import LineShell.Proofs.Editor.Reading
import LineShell.Proofs.History.Log
import LineShell.Proofs.History.Recall
import Mathlib.Data.List.InsertIdx
/-!
The lines that a read gives.

On any terminal, failing ones included, a read leaves the files and the logs alone and gives lines
that survive in a log. A buffer gets its characters from keys and from recalled lines, and a line
feed comes from neither: the key that would be one ends the line, and no line of the history holds
one.
-/

set_option autoImplicit false

namespace LineShell

/-! ## Effects of a read -/

/-- A machine with the same files, in the same directory. -/
structure Machine.SamePlace (m n : Machine) : Prop where
  files : n.files = m.files
  workDir : n.workDir = m.workDir

theorem Machine.SamePlace.refl (m : Machine) : m.SamePlace m := ⟨rfl, rfl⟩

theorem Machine.SamePlace.trans {m n o : Machine} (h : m.SamePlace n) (h' : n.SamePlace o) :
    m.SamePlace o :=
  ⟨h'.files.trans h.files, h'.workDir.trans h.workDir⟩

namespace Effect

/-- An effect that leaves the files and the directory alone, also where it fails. -/
def Harmless {α : Type} (effect : Effect α) : Prop :=
  ∀ m : Machine, Ends effect m (fun _ => m.SamePlace) m.SamePlace

theorem harmless_write (text : String) : Harmless (write text) := by
  intro m
  unfold write writeBytes note
  refine ends_get_bind.2 (ends_modify_bind.2 (ends_modify_bind.2 ?_))
  split_ifs
  · exact ends_of_error rfl ⟨rfl, rfl⟩
  · exact ends_pure ⟨rfl, rfl⟩

theorem harmless_flush : Harmless flush := by
  intro m
  unfold flush
  refine ends_get_bind.2 ?_
  split
  · exact ends_of_error rfl ⟨rfl, rfl⟩
  · exact ends_of_ok rfl ⟨rfl, rfl⟩

theorem harmless_nextByte : Harmless nextByte := by
  intro m
  obtain ⟨files, workDir, screen, ⟨unread, failsAfter, shared⟩, errors, journal⟩ := m
  cases failsAfter with
  | none => exact ends_of_ok rfl ⟨rfl, rfl⟩
  | some reads =>
    cases reads with
    | zero => exact ends_of_error rfl ⟨rfl, rfl⟩
    | succ reads => exact ends_of_ok rfl ⟨rfl, rfl⟩

end Effect

/-- A history without line feeds in its lines. -/
def History.FeedFree (h : History) : Prop := ∀ line ∈ h.entries, '\n' ∉ line.toList

theorem History.feedFree_start (capacity : Nat) (logs : Option Logs) :
    (start capacity logs).FeedFree := fun _ h => nomatch h

/-- What a read leaves as it was: the files, the directory and the logs. And if the lines of the
history were free of line feeds, they still are. -/
structure Desk.Undisturbed (before after : Desk) : Prop where
  machine : before.machine.SamePlace after.machine
  logs : after.history.logs = before.history.logs
  lines : before.history.FeedFree → after.history.FeedFree

theorem Desk.Undisturbed.refl (desk : Desk) : desk.Undisturbed desk :=
  ⟨.refl _, rfl, id⟩

theorem Desk.Undisturbed.trans {a b c : Desk} (h : a.Undisturbed b) (h' : b.Undisturbed c) :
    a.Undisturbed c :=
  ⟨h.machine.trans h'.machine, h'.logs.trans h.logs, h'.lines ∘ h.lines⟩

namespace DeskM

/-- An action at the desk that disturbs nothing, on any terminal, and gives such a value if it
succeeds. -/
def Gives {α : Type} (action : DeskM α) (desk : Desk) (good : α → Prop) : Prop :=
  Ends action desk (fun a later => desk.Undisturbed later ∧ good a) desk.Undisturbed

section

variable {α β : Type} {desk : Desk} {good : α → Prop}

theorem gives_pure {a : α} (h : good a) : Gives (pure a) desk good :=
  ends_pure ⟨.refl desk, h⟩

/-- What is undisturbed by one action and then by another one is undisturbed by both. -/
theorem Gives.bind {action : DeskM α} {f : α → DeskM β} {later : β → Prop}
    (h : Gives action desk good)
    (hf : ∀ a desk', desk.Undisturbed desk' → good a → Gives (f a) desk' later) :
    Gives (action >>= f) desk later := by
  refine Ends.bind h fun a desk' hfirst => ?_
  refine (hf a desk' hfirst.1 hfirst.2).mono ?_ ?_
  · exact fun b desk'' hsecond => ⟨hfirst.1.trans hsecond.1, hsecond.2⟩
  · exact fun desk'' hsecond => hfirst.1.trans hsecond

theorem gives_onTerminal {effect : Effect α} (h : effect.Harmless) (desk : Desk) :
    Gives (onTerminal effect) desk fun _ => True := by
  have hends := h desk.machine
  unfold onTerminal
  cases heffect : effect desk.machine with
  | ok a m =>
    exact ends_of_ok (onMachine_of_ok heffect) ⟨⟨hends.ok a m heffect, rfl, id⟩, trivial⟩
  | error cause m =>
    exact ends_of_error (onMachine_of_error heffect) ⟨hends.error cause m heffect, rfl, id⟩

/-- A change of the history that keeps the logs, and its lines free of line feeds. -/
theorem gives_modifyHistory {change : History → History} (desk : Desk)
    (hlogs : (change desk.history).logs = desk.history.logs)
    (hlines : desk.history.FeedFree → (change desk.history).FeedFree) :
    Gives (modifyHistory change) desk fun _ => True :=
  ends_of_ok rfl ⟨⟨.refl _, hlogs, hlines⟩, trivial⟩

end

end DeskM

theorem History.logs_recordAll (h : History) (lines : List String) :
    (h.recordAll lines).logs = h.logs := by
  induction lines generalizing h with
  | nil => rfl
  | cons line lines ih => rw [recordAll, List.foldl_cons, ← recordAll, ih, record]

theorem History.feedFree_recordAll {h : History} (hlines : h.FeedFree) {lines : List String}
    (hmore : ∀ line ∈ lines, '\n' ∉ line.toList) : (h.recordAll lines).FeedFree := by
  intro line hmem
  rcases mem_entries_recordAll hmem with hmem | hmem
  · exact hlines line hmem
  · exact hmore line hmem

/-- **Loading the history** disturbs nothing. -/
theorem History.gives_ensureLoaded (desk : Desk) : DeskM.Gives ensureLoaded desk fun _ => True := by
  unfold ensureLoaded
  refine ends_get_bind.2 ?_
  by_cases hloaded : desk.history.loaded
  · rw [if_pos hloaded]
    exact DeskM.gives_pure trivial
  · rw [if_neg hloaded]
    refine DeskM.Gives.bind (DeskM.gives_modifyHistory desk rfl id) fun _ marked _ _ => ?_
    cases desk.history.logs with
    | none => exact DeskM.gives_pure trivial
    | some logs =>
      dsimp only
      cases desk.machine.files.read desk.machine.base logs.memory with
      | ok bytes =>
        refine DeskM.gives_modifyHistory marked (logs_recordAll _ _) fun hlines => ?_
        exact feedFree_recordAll hlines fun line hmem => feed_not_mem_of_mem_linesOfLog hmem
      | error cause =>
        cases cause with
        | missing => exact DeskM.gives_pure trivial
        | _ => exact ends_of_error rfl (.refl marked)

namespace Editor

/-! ## Buffers without line feeds -/

/-- No buffer of a read holds a line feed. -/
def Reading.FeedFree : Reading → Prop
  | .going _ b => '\n' ∉ b.chars
  | .complete b => '\n' ∉ b.chars
  | .ended => True

theorem feed_not_mem_recalled {prompt : String} {direction : Recall} {b : EditBuffer} {h : History}
    (hlines : h.FeedFree) : '\n' ∉ (recalled prompt direction b h).buffer.chars := by
  have hrecalled : '\n' ∉ (h.revisit direction).1.toList :=
    History.revisit_line (fun line => '\n' ∉ line.toList) (fun hfeed => nomatch hfeed) hlines
      direction
  exact fun hfeed => hrecalled (List.mem_of_mem_take hfeed)

/-- **A key brings no line feed into the buffer.** -/
theorem feed_not_mem_stroke {key : Key} {b : EditBuffer} {h : History} (prompt : String)
    (hb : '\n' ∉ b.chars) (hlines : h.FeedFree) (hchar : ∀ c, key = .char c → Printable c) :
    '\n' ∉ (stroke prompt key b h).buffer.chars := by
  cases key with
  | char c =>
    have hc : c ≠ '\n' := by
      rintro rfl
      exact absurd (hchar _ rfl) (by decide)
    unfold stroke EditBuffer.insert?
    dsimp only
    cases b.isFull with
    | true => exact hb
    | false =>
      intro hfeed
      rcases List.eq_or_mem_of_mem_insertIdx hfeed with rfl | hfeed
      · exact hc rfl
      · exact hb hfeed
  | backspace =>
    unfold stroke EditBuffer.delete?
    dsimp only
    cases b.cursor with
    | zero => exact hb
    | succ n => exact fun hfeed => hb (List.mem_of_mem_eraseIdx hfeed)
  | left =>
    unfold stroke EditBuffer.left?
    dsimp only
    cases b.cursor <;> exact hb
  | right =>
    unfold stroke EditBuffer.right?
    dsimp only
    cases b.chars[b.cursor]? <;> exact hb
  | enter => exact hb
  | up => exact feed_not_mem_recalled hlines
  | down => exact feed_not_mem_recalled hlines
  | endOfInput => exact hb

/-! ## The parts of a read -/

variable {prompt : String} {b : EditBuffer} {desk : Desk}

theorem gives_press {key : Key} (hb : '\n' ∉ b.chars) (hlines : desk.history.FeedFree)
    (hchar : ∀ c, key = .char c → Printable c) :
    DeskM.Gives (press prompt key b) desk fun b' => '\n' ∉ b'.chars := by
  have hbuffer := feed_not_mem_stroke prompt hb hlines hchar
  obtain ⟨recalled, hhistory⟩ := history_stroke prompt key b desk.history
  unfold press
  refine ends_get_bind.2 ?_
  generalize stroke prompt key b desk.history = s at hbuffer hhistory
  obtain ⟨b', history, echo⟩ := s
  dsimp only at hbuffer hhistory ⊢
  have hmodify : DeskM.Gives (DeskM.modifyHistory fun _ => history) desk fun _ => True := by
    refine DeskM.gives_modifyHistory desk ?_ ?_
    · rw [hhistory]
    · rw [hhistory]
      exact id
  refine DeskM.Gives.bind hmodify fun _ later _ _ => ?_
  cases echo with
  | none => exact DeskM.gives_pure hbuffer
  | some text =>
    refine DeskM.Gives.bind (DeskM.gives_onTerminal (Effect.harmless_write text) later) ?_
    exact fun _ _ _ _ => DeskM.gives_pure hbuffer

theorem gives_take {byte : UInt8} {decoder : Decoder} (hb : '\n' ∉ b.chars)
    (hlines : desk.history.FeedFree) :
    DeskM.Gives (take prompt byte decoder b) desk Reading.FeedFree := by
  have hpress : ∀ next key, (decoder.step byte).2 = some key → DeskM.Gives (do
      let b ← press prompt key b
      DeskM.onTerminal Effect.flush
      return if next = .done then Reading.complete b else .going next b) desk
        Reading.FeedFree := by
    intro next key hkey
    refine DeskM.Gives.bind (gives_press hb hlines ?_) fun b' pressed _ hb' => ?_
    · exact fun c hc => Decoder.printable_of_step (hkey.trans (hc ▸ rfl))
    · refine DeskM.Gives.bind (DeskM.gives_onTerminal Effect.harmless_flush pressed) ?_
      intro _ _ _ _
      refine DeskM.gives_pure ?_
      split_ifs <;> exact hb'
  unfold take
  generalize hstep : decoder.step byte = step at hpress
  obtain ⟨next, key⟩ := step
  dsimp only
  cases key with
  | none => exact DeskM.gives_pure hb
  | some key =>
    cases key with
    | endOfInput =>
      dsimp only
      split
      · refine DeskM.Gives.bind (DeskM.gives_onTerminal (Effect.harmless_write _) desk) ?_
        exact fun _ _ _ _ => DeskM.gives_pure trivial
      · exact DeskM.gives_pure hb
    | char c => exact hpress _ _ rfl
    | backspace => exact hpress _ _ rfl
    | enter => exact hpress _ _ rfl
    | up => exact hpress _ _ rfl
    | down => exact hpress _ _ rfl
    | left => exact hpress _ _ rfl
    | right => exact hpress _ _ rfl

/-- What is left at the end of the input is the buffer, or nothing. -/
theorem feed_not_mem_leftover (hb : '\n' ∉ b.chars) :
    ∀ b', leftover b = some b' → '\n' ∉ b'.chars := by
  intro b' h
  unfold leftover at h
  split at h
  · cases h
  · rwa [← Option.some.inj h]

/-- **Reading keys** gives a buffer without line feeds. -/
theorem gives_readKeys (unread : Bytes) {decoder : Decoder} (hb : '\n' ∉ b.chars)
    (hlines : desk.history.FeedFree) :
    DeskM.Gives (readKeys prompt unread decoder b) desk
      fun line => ∀ b', line = some b' → '\n' ∉ b'.chars := by
  induction unread generalizing decoder b desk with
  | nil =>
    rw [readKeys]
    refine DeskM.Gives.bind (DeskM.gives_onTerminal Effect.harmless_nextByte desk) ?_
    exact fun _ _ _ _ => DeskM.gives_pure (feed_not_mem_leftover hb)
  | cons _ unread ih =>
    rw [readKeys]
    refine DeskM.Gives.bind (DeskM.gives_onTerminal Effect.harmless_nextByte desk) ?_
    intro byte asked hasked _
    cases byte with
    | none => exact DeskM.gives_pure (feed_not_mem_leftover hb)
    | some byte =>
      refine DeskM.Gives.bind (gives_take hb (hasked.lines hlines)) ?_
      intro reading taken htaken hreading
      cases reading with
      | going decoder b => exact ih hreading (htaken.lines (hasked.lines hlines))
      | complete b =>
        exact DeskM.gives_pure fun b' h => by rwa [← Option.some.inj h]
      | ended =>
        refine DeskM.gives_pure ?_
        intro b' h
        cases h

theorem gives_accept (hb : '\n' ∉ b.chars) :
    DeskM.Gives (accept b) desk fun text => text.isEmpty = false → Loggable text := by
  have hfeed : '\n' ∉ b.line.toList := by
    rw [EditBuffer.line, String.toList_ofList]
    exact hb
  have hloggable : (finishLine b.line).isEmpty = false → Loggable (finishLine b.line) :=
    loggable_finishLine hfeed
  unfold accept
  generalize finishLine b.line = line at hloggable
  dsimp only
  cases hempty : line.isEmpty with
  | true =>
    refine DeskM.gives_pure fun hnot => ?_
    rw [hempty] at hnot
    cases hnot
  | false =>
    have hkept : desk.history.FeedFree → (desk.history.record line).FeedFree := by
      intro hlines other hmem
      rcases History.mem_entries_record hmem with hmem | rfl
      · exact hlines other hmem
      · exact (hloggable hempty).feed
    refine DeskM.Gives.bind (DeskM.gives_modifyHistory desk rfl hkept) fun _ _ _ _ => ?_
    exact DeskM.gives_pure hloggable

/-- **A read gives lines that survive in a log,** on any terminal and whatever is typed. -/
theorem gives_readLine (maxLength : Nat) (hlines : desk.history.FeedFree) :
    DeskM.Gives (readLine maxLength prompt) desk
      fun line => ∀ text, line = some text → text.isEmpty = false → Loggable text := by
  have hprepare : DeskM.Gives (prepare prompt) desk fun _ => True := by
    unfold prepare
    refine DeskM.Gives.bind (History.gives_ensureLoaded desk) fun _ loaded _ _ => ?_
    refine DeskM.Gives.bind (DeskM.gives_modifyHistory loaded rfl id) fun _ reset _ _ => ?_
    refine DeskM.Gives.bind (DeskM.gives_onTerminal (Effect.harmless_write prompt) reset) ?_
    exact fun _ written _ _ => DeskM.gives_onTerminal Effect.harmless_flush written
  unfold readLine
  refine DeskM.Gives.bind hprepare fun _ ready hready _ => ?_
  refine ends_get_bind.2 ?_
  have hempty : '\n' ∉ (EditBuffer.empty (max maxLength 1)).chars := fun h => nomatch h
  refine DeskM.Gives.bind (gives_readKeys _ hempty (hready.lines hlines)) ?_
  intro line read hread hline
  cases line with
  | none => exact DeskM.gives_pure fun text h => nomatch h
  | some b =>
    have hb : '\n' ∉ b.chars := hline b rfl
    have haccept : DeskM.Gives (accept b) read fun text => text.isEmpty = false → Loggable text :=
      gives_accept hb
    refine DeskM.Gives.bind haccept fun text _ _ htext => DeskM.gives_pure ?_
    intro text' h
    rwa [← Option.some.inj h]

end Editor

end LineShell
