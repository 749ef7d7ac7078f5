import LineShell.Proofs.Editor.Accepted
import LineShell.Proofs.Editor.Typing
import LineShell.Proofs.Shell.Deeds
/-!
Waiting for keys, on any terminal.

A read writes, flushes and asks for bytes; it does nothing else to the machine, and keeps the logs
of the history (`Desk.Calm`). It flushes before it asks, so nothing is held back while it waits,
also where the screen takes no more or the keys break down. A read that gives a line has taken a
byte (`Editor.calm_readLine`), which is why a session comes to an end.
-/

set_option autoImplicit false

namespace LineShell

/-- A desk at which a line is being read, and the same desk later. -/
structure Desk.Calm (before after : Desk) : Prop where
  reaches : before.machine.Reaches [] after.machine
  place : before.machine.SamePlace after.machine
  logs : after.history.logs = before.history.logs

theorem Desk.Calm.refl (desk : Desk) : desk.Calm desk := ⟨.refl _, .refl _, rfl⟩

theorem Desk.Calm.trans {a b c : Desk} (h : a.Calm b) (h' : b.Calm c) : a.Calm c :=
  ⟨h.reaches.trans h'.reaches, h.place.trans h'.place, h'.logs.trans h.logs⟩

/-- Nothing has been written that is not flushed. -/
def Desk.Settled (desk : Desk) : Prop := desk.machine.screen.pending = []

namespace DeskM

variable {α : Type} {desk : Desk}

/-- Writing to the screen, whatever it takes. -/
theorem calm_write (text : String) (desk : Desk) :
    Ends (onTerminal (Effect.write text)) desk (fun _ => desk.Calm) desk.Calm := by
  have hquiet := Effect.quiet_write text desk.machine
  have hplace := Effect.harmless_write text desk.machine
  cases h : Effect.write text desk.machine with
  | ok a m =>
    exact ends_of_ok (onMachine_of_ok h) ⟨hquiet.ok a m h, hplace.ok a m h, rfl⟩
  | error cause m =>
    exact ends_of_error (onMachine_of_error h) ⟨hquiet.error cause m h, hplace.error cause m h, rfl⟩

theorem calm_flush (desk : Desk) : Ends (onTerminal Effect.flush) desk
    (fun _ later => desk.Calm later ∧ later.Settled) desk.Calm := by
  have hflush := Effect.ends_flush desk.machine
  cases h : Effect.flush desk.machine with
  | ok a m =>
    obtain rfl := hflush.ok a m h
    refine ends_of_ok (onMachine_of_ok h) ⟨⟨?_, ⟨rfl, rfl⟩, rfl⟩, rfl⟩
    exact (Machine.Step.flushed desk.machine).reaches
  | error cause m =>
    obtain rfl := hflush.error cause m h
    exact ends_of_error (onMachine_of_error h) (.refl desk)

theorem calm_nextByte (hsettled : desk.Settled) : Ends (onTerminal Effect.nextByte) desk
    (fun byte later => (desk.Calm later ∧ later.Settled) ∧
      (byte.isSome → later.machine.keys.unread.length < desk.machine.keys.unread.length))
    desk.Calm := by
  have heq := Effect.nextByte_eq desk.machine
  by_cases hfails : desk.machine.keys.failsAfter = some 0
  · rw [if_pos hfails] at heq
    refine ends_of_error (onMachine_of_error heq) ⟨?_, ⟨rfl, rfl⟩, rfl⟩
    exact (Machine.Step.refused desk.machine hsettled).reaches
  · rw [if_neg hfails] at heq
    refine ends_of_ok (onMachine_of_ok heq) ⟨⟨⟨?_, ⟨rfl, rfl⟩, rfl⟩, hsettled⟩, fun hsome => ?_⟩
    · exact (Machine.Step.asked desk.machine hsettled).reaches
    · show desk.machine.keys.unread.tail.length < desk.machine.keys.unread.length
      cases hunread : desk.machine.keys.unread with
      | nil =>
        rw [hunread] at hsome
        cases hsome
      | cons byte rest => exact Nat.lt_succ_self _

end DeskM

theorem History.calm_ensureLoaded (desk : Desk) :
    Ends ensureLoaded desk (fun _ => desk.Calm) desk.Calm := by
  have heq := ensureLoaded_eq desk
  by_cases hloaded : desk.history.loaded
  · rw [if_pos hloaded] at heq
    exact ends_of_ok heq (.refl desk)
  · rw [if_neg hloaded] at heq
    dsimp only at heq
    split at heq
    · exact ends_of_ok heq ⟨.refl _, .refl _, rfl⟩
    · split at heq
      · exact ends_of_ok heq ⟨.refl _, .refl _, logs_recordAll _ _⟩
      · exact ends_of_ok heq ⟨.refl _, .refl _, rfl⟩
      · exact ends_of_error heq ⟨.refl _, .refl _, rfl⟩

namespace Editor

variable {prompt : String} {desk : Desk} {b : EditBuffer}

/-- A key writes its echo, if it has one. -/
theorem calm_press (key : Key) (b : EditBuffer) (desk : Desk) :
    Ends (press prompt key b) desk (fun _ => desk.Calm) desk.Calm := by
  obtain ⟨recalled, hhistory⟩ := history_stroke prompt key b desk.history
  unfold press
  refine ends_get_bind.2 ?_
  generalize stroke prompt key b desk.history = s at hhistory
  obtain ⟨b', history, echo⟩ := s
  dsimp only at hhistory ⊢
  refine ends_modify_bind.2 ?_
  have hstart : desk.Calm { desk with history } :=
    ⟨.refl _, .refl _, by rw [hhistory]⟩
  cases echo with
  | none => exact ends_pure hstart
  | some text =>
    refine (DeskM.calm_write text { desk with history }).bind_mono (fun _ h => hstart.trans h) ?_
    exact fun _ later h => ends_pure (hstart.trans h)

/-- **One byte** is done with when everything is flushed, unless it ends the input. -/
theorem calm_take (byte : UInt8) (decoder : Decoder) (b : EditBuffer) (hsettled : desk.Settled) :
    Ends (take prompt byte decoder b) desk
      (fun reading later => desk.Calm later ∧ (reading ≠ .ended → later.Settled)) desk.Calm := by
  rcases hstep : decoder.step byte with ⟨next, key⟩
  cases key with
  | none =>
    unfold take
    rw [hstep]
    exact ends_pure ⟨.refl desk, fun _ => hsettled⟩
  | some key =>
    by_cases hkey : key = .endOfInput
    · rw [hkey] at hstep
      unfold take
      rw [hstep]
      dsimp only
      split
      · refine Ends.bind (DeskM.calm_write _ desk) fun _ later h => ends_pure ⟨h, ?_⟩
        exact fun hne => absurd rfl hne
      · exact ends_pure ⟨.refl desk, fun _ => hsettled⟩
    · rw [take_of_key hstep hkey]
      refine Ends.bind (calm_press key b desk) fun b' pressed hpressed => ?_
      refine (DeskM.calm_flush pressed).bind_mono (fun _ h => hpressed.trans h) ?_
      exact fun _ later h => ends_pure ⟨hpressed.trans h.1, fun _ => h.2⟩

/-- **Reading keys:** a buffer that comes of it was there before, or a byte has been taken. -/
theorem calm_readKeys (unread : Bytes) (decoder : Decoder) (b : EditBuffer)
    (hsettled : desk.Settled) :
    Ends (readKeys prompt unread decoder b) desk
      (fun line later => desk.Calm later ∧ (line.isSome → b.isEmpty = false ∨
        later.machine.keys.unread.length < desk.machine.keys.unread.length)) desk.Calm := by
  have hleft (b : EditBuffer) : (leftover b).isSome → b.isEmpty = false := by
    unfold leftover
    cases b.isEmpty with
    | true => intro h; cases h
    | false => exact fun _ => rfl
  -- The list bounds the recursion only. What is read comes from the keys, which may hold less.
  induction unread generalizing desk decoder b with
  | nil =>
    rw [readKeys]
    refine Ends.bind (DeskM.calm_nextByte hsettled) fun byte asked hasked => ends_pure ?_
    exact ⟨hasked.1.1, fun hsome => .inl (hleft b hsome)⟩
  | cons first unread ih =>
    rw [readKeys]
    refine Ends.bind (DeskM.calm_nextByte hsettled) fun byte asked hasked => ?_
    obtain ⟨⟨hcalm, hasked⟩, hless⟩ := hasked
    cases byte with
    | none => exact ends_pure ⟨hcalm, fun hsome => .inl (hleft b hsome)⟩
    | some byte =>
      have hshorter := hless rfl
      refine (calm_take byte decoder b hasked).bind_mono (fun _ h => hcalm.trans h) ?_
      intro reading taken htaken
      have hall := hcalm.trans htaken.1
      -- The byte that was taken is not put back by what follows.
      have hmore : ∀ later : Desk, taken.Calm later →
          later.machine.keys.unread.length < desk.machine.keys.unread.length := by
        intro later hlater
        have hle := (htaken.1.trans hlater).reaches.unread_length_le
        omega
      cases reading with
      | going decoder' b' =>
        refine (ih decoder' b' (htaken.2 (by simp))).mono ?_ ?_
        · exact fun line later h => ⟨hall.trans h.1, fun _ => .inr (hmore later h.1)⟩
        · exact fun later h => hall.trans h
      | complete b' => exact ends_pure ⟨hall, fun _ => .inr (hmore taken (.refl taken))⟩
      | ended => exact ends_pure ⟨hall, fun hsome => absurd hsome Bool.false_ne_true⟩

/-- The prompt is flushed before the first byte is asked for. -/
theorem calm_prepare (desk : Desk) :
    Ends (prepare prompt) desk (fun _ later => desk.Calm later ∧ later.Settled) desk.Calm := by
  unfold prepare
  refine Ends.bind (History.calm_ensureLoaded desk) fun _ loaded hloaded => ?_
  refine ends_modify_bind.2 ?_
  have hreset : desk.Calm { loaded with history := loaded.history.resetRecall } :=
    ⟨hloaded.reaches, hloaded.place, hloaded.logs⟩
  refine (DeskM.calm_write prompt _).bind_mono (fun _ h => hreset.trans h) ?_
  intro _ written hwritten
  have hall := hreset.trans hwritten
  refine (DeskM.calm_flush written).mono ?_ ?_
  · exact fun _ later h => ⟨hall.trans h.1, h.2⟩
  · exact fun later h => hall.trans h

/-- **A read, on any terminal.** One that gives a line has taken a byte. -/
theorem calm_readLine (maxLength : Nat) (prompt : String) (desk : Desk) :
    Ends (readLine maxLength prompt) desk
      (fun line later => desk.Calm later ∧ (line.isSome →
        later.machine.keys.unread.length < desk.machine.keys.unread.length)) desk.Calm := by
  unfold readLine
  refine Ends.bind (calm_prepare desk) fun _ ready hready => ends_get_bind.2 ?_
  refine (calm_readKeys _ .normal (.empty (max maxLength 1)) hready.2).bind_mono
    (fun _ h => hready.1.trans h) fun line read hread => ?_
  have hcalm := hready.1.trans hread.1
  cases line with
  | none => exact ends_pure ⟨hcalm, fun hsome => absurd hsome Bool.false_ne_true⟩
  | some b =>
    have hlogs := logs_kept read.history (finishLine b.line)
    have haccept := accept_eq b read
    generalize finishLine b.line = line at hlogs haccept
    refine ends_bind_of_ok haccept (ends_pure ⟨⟨hcalm.reaches, hcalm.place, ?_⟩, fun _ => ?_⟩)
    · exact hlogs.trans hcalm.logs
    · have hle := hready.1.reaches.unread_length_le
      rcases hread.2 rfl with hempty | hless
      · cases hempty
      · show read.machine.keys.unread.length < desk.machine.keys.unread.length
        omega

end Editor

end LineShell
