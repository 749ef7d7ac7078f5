import LineShell.Proofs.Editor.Sheet
import LineShell.Proofs.Editor.Typing
import LineShell.Proofs.Terminal.Steps
/-!
Which bytes a read takes, and what it makes of them.

A read takes the bytes up to the one that stops it: the first one that ends the line, or that ends
the input while nothing is written (`Stops`). What the read gives is the text of the sheet on which
its own bytes were typed (`typed`), finished. The rest is left for the next read, which knows
nothing of the first one but the history (`readLines_partition`). Keys that are cut in two by the
end of a read, text behind a full line and a walk through the history are all among these bytes.
-/

set_option autoImplicit false

namespace LineShell

/-! ## Asking for a byte -/

/-- A byte is given unless the keys break down. -/
theorem DeskM.ends_nextByte (desk : Desk) :
    Ends (onTerminal Effect.nextByte) desk
      (fun byte later => byte = desk.machine.keys.unread.head? ∧
        later = { desk with machine := desk.machine.asked })
      (fun _ => desk.machine.keys.failsAfter ≠ none) := by
  have heq := Effect.nextByte_eq desk.machine
  by_cases hfails : desk.machine.keys.failsAfter = some 0
  · rw [if_pos hfails] at heq
    refine ends_of_error (onMachine_of_error heq) ?_
    rw [hfails]
    simp
  · rw [if_neg hfails] at heq
    exact ends_of_ok (onMachine_of_ok heq) ⟨rfl, rfl⟩

namespace History

theorem loaded_recordAll (h : History) (lines : List String) :
    (h.recordAll lines).loaded = h.loaded := by
  induction lines generalizing h with
  | nil => rfl
  | cons line lines ih => exact ih (h.record line)

/-- A history that is loaded is not loaded again. -/
theorem ensureLoaded_of_loaded {desk : Desk} (h : desk.history.loaded = true) :
    ensureLoaded desk = .ok ⟨⟩ desk := by
  rw [ensureLoaded_eq, if_pos h]

/-- **After loading a history is loaded,** also where its log cannot be read. -/
theorem ends_ensureLoaded (desk : Desk) :
    Ends ensureLoaded desk
      (fun _ later => later.history.loaded = true)
      (fun later => later.machine = desk.machine ∧ later.history.loaded = true) := by
  have heq := ensureLoaded_eq desk
  by_cases hloaded : desk.history.loaded
  · rw [if_pos hloaded] at heq
    exact ends_of_ok heq hloaded
  · rw [if_neg hloaded] at heq
    dsimp only at heq
    split at heq
    · exact ends_of_ok heq rfl
    · split at heq
      · exact ends_of_ok heq (loaded_recordAll _ _)
      · exact ends_of_ok heq rfl
      · exact ends_of_error heq ⟨rfl, rfl⟩

end History

namespace Editor

/-! ## The bytes of one read -/

/-- **The sheet that some bytes are typed on:** the keys that they complete are pressed on a blank
one. -/
def typed (limit : Nat) (entries : List String) (bytes : Bytes) : Sheet :=
  (Sheet.blank entries).pressAll limit (Decoder.normal.keys bytes)

/-- The key that a byte completes which was typed behind others. -/
def keyAt (front : Bytes) (byte : UInt8) : Option Key := ((Decoder.normal.after front).step byte).2

/-- The end of the input, asked for where nothing is written. -/
def Dismisses (limit : Nat) (entries : List String) (front : Bytes) (byte : UInt8) : Prop :=
  keyAt front byte = some .endOfInput ∧ (typed limit entries front).text = []

/-- A read stops at a byte which was typed behind others. -/
def Stops (limit : Nat) (entries : List String) (front : Bytes) (byte : UInt8) : Prop :=
  keyAt front byte = some .enter ∨ Dismisses limit entries front byte

/-- A read does not stop at any of these bytes. -/
def GoesOn (limit : Nat) (entries : List String) (bytes : Bytes) : Prop :=
  ∀ front byte back, bytes = front ++ byte :: back → ¬ Stops limit entries front byte

/-- Why a read stops. -/
inductive Stop where
  /-- At the key that ends the line. -/
  | entered
  /-- At the key that ends the input. -/
  | dismissed
  /-- There are no more bytes. -/
  | exhausted
deriving DecidableEq, Repr

/-- The text that a read gives, from the one that was written when it stopped. -/
def Stop.text : Stop → List Char → Option (List Char)
  | .entered, text => some text
  | .dismissed, _ => none
  | .exhausted, text => if text.isEmpty then none else some text

/-- The line that a read gives: its text, finished. -/
def Stop.line (stop : Stop) (text : List Char) : Option String :=
  (stop.text text).map fun text => finishLine (String.ofList text)

/-- What a read leaves on the screen without flushing it. -/
def Stop.held : Stop → Bytes
  | .dismissed => bytesOf "\n"
  | _ => []

/-- **How far a read goes:** it stops for a reason, with bytes of its own, and leaves a rest. -/
inductive Extent (limit : Nat) (entries : List String) : Bytes → Stop → Bytes → Bytes → Prop where
  | entered (front : Bytes) (byte : UInt8) (rest : Bytes) (hon : GoesOn limit entries front)
      (hkey : keyAt front byte = some .enter) :
      Extent limit entries (front ++ byte :: rest) .entered (front ++ [byte]) rest
  | dismissed (front : Bytes) (byte : UInt8) (rest : Bytes) (hon : GoesOn limit entries front)
      (hkey : Dismisses limit entries front byte) :
      Extent limit entries (front ++ byte :: rest) .dismissed (front ++ [byte]) rest
  | exhausted (own : Bytes) (hon : GoesOn limit entries own) :
      Extent limit entries own .exhausted own []

/-- The history after a read that gave a line, or none. -/
def entered (h : History) (line : Option String) : History := line.elim h (kept h)

section Typing

variable {limit : Nat} {entries : List String} {front : Bytes} {byte : UInt8}

/-- One byte more presses the key that it completes. -/
theorem typed_snoc : typed limit entries (front ++ [byte])
    = (typed limit entries front).pressAll limit (keyAt front byte).toList := by
  unfold typed
  rw [Decoder.keys_snoc]
  exact List.foldl_append

theorem typed_snoc_of_none (hkey : keyAt front byte = none) :
    typed limit entries (front ++ [byte]) = typed limit entries front := by
  rw [typed_snoc, hkey]
  rfl

theorem typed_snoc_of_key {key : Key} (hkey : keyAt front byte = some key) :
    typed limit entries (front ++ [byte]) = (typed limit entries front).press limit key := by
  rw [typed_snoc, hkey]
  rfl

theorem goesOn_nil : GoesOn limit entries [] := by
  intro front byte back hsplit
  have hne : front ++ byte :: back ≠ [] := by simp
  exact absurd hsplit.symm hne

theorem GoesOn.snoc (hon : GoesOn limit entries front) (hbyte : ¬ Stops limit entries front byte) :
    GoesOn limit entries (front ++ [byte]) := by
  intro front' byte' back hsplit
  rcases List.eq_nil_or_concat' back with rfl | ⟨back', last, rfl⟩
  · obtain ⟨rfl, hlast⟩ := List.append_inj' hsplit rfl
    obtain rfl : byte = byte' := List.singleton_inj.1 hlast
    exact hbyte
  · have hlast : front ++ [byte] = (front' ++ byte' :: back') ++ [last] := by
      rw [hsplit, List.append_assoc, List.cons_append]
    exact hon front' byte' back' (List.append_inj' hlast rfl).1

end Typing

/-! ## One read -/

section Reads

variable {limit : Nat} {h : History} {front : Bytes} {byte : UInt8} {desk : Desk} {prompt : String}

/-- A read that has gone over some bytes. -/
structure Midway (limit : Nat) (h : History) (front : Bytes) (desk : Desk) : Prop where
  screen : desk.machine.screen.NeverFails
  held : desk.machine.screen.pending = []
  history : desk.history.resetRecall = h
  walk : (typed limit h.entries front).walk.At desk.history
  goesOn : GoesOn limit h.entries front
  undone : Decoder.normal.after front ≠ .done

/-- **What a read comes to** that was to go over some bytes: it gives a text, and leaves a history
and the rest of the bytes. -/
structure Came (limit : Nat) (h : History) (bytes : Bytes) (text : Option (List Char))
    (left : History) (later : Desk) (stop : Stop) : Prop where
  extent : ∃ own, Extent limit h.entries bytes stop own later.machine.keys.unread ∧
    text = stop.text (typed limit h.entries own).text
  history : later.history.resetRecall = left
  screen : later.machine.screen.NeverFails
  held : later.machine.screen.pending = stop.held

/-- A key changes the position of the recall only. -/
theorem resetRecall_stroke (prompt : String) (key : Key) (b : EditBuffer) (h : History) :
    (stroke prompt key b h).history.resetRecall = h.resetRecall := by
  obtain ⟨recalled, hhistory⟩ := history_stroke prompt key b h
  rw [hhistory]
  rfl

/-- A key that is pressed leads from one byte of a read to the next. -/
theorem Midway.struck {key : Key} (hmid : Midway limit h front desk) (prompt : String)
    (hkey : keyAt front byte = some key) :
    let s := stroke prompt key ((typed limit h.entries front).buffer limit) desk.history
    s.buffer = (typed limit h.entries (front ++ [byte])).buffer limit ∧
      (typed limit h.entries (front ++ [byte])).walk.At s.history ∧
      s.history.resetRecall = h := by
  obtain ⟨hbuffer, hwalk⟩ := stroke_shows limit prompt key hmid.walk
  rw [typed_snoc_of_key hkey]
  exact ⟨hbuffer, hwalk, (resetRecall_stroke prompt key _ _).trans hmid.history⟩

/-- What one byte leads to. -/
def Leads (limit : Nat) (h : History) (front : Bytes) (byte : UInt8) : Reading → Desk → Prop
  | .going decoder b, later =>
    decoder = Decoder.normal.after (front ++ [byte]) ∧
      b = (typed limit h.entries (front ++ [byte])).buffer limit ∧
      Midway limit h (front ++ [byte]) later
  | .complete b, later =>
    keyAt front byte = some .enter ∧ b.chars = (typed limit h.entries (front ++ [byte])).text ∧
      later.history.resetRecall = h ∧ later.machine.screen.NeverFails ∧
      later.machine.screen.pending = []
  | .ended, later =>
    Dismisses limit h.entries front byte ∧
      later.history.resetRecall = h ∧ later.machine.screen.NeverFails ∧
      later.machine.screen.pending = bytesOf "\n"

/-- **One byte of a read.** -/
theorem Midway.leads (hmid : Midway limit h front desk) (prompt : String) (byte : UInt8) :
    Leads limit h front byte
      (taken prompt byte (Decoder.normal.after front)
        ((typed limit h.entries front).buffer limit) desk).1
      (taken prompt byte (Decoder.normal.after front)
        ((typed limit h.entries front).buffer limit) desk).2 := by
  have hdone : ((Decoder.normal.after front).step byte).1 = .done ↔
      ((Decoder.normal.after front).step byte).2 = some .enter := Decoder.step_done_iff hmid.undone
  rcases hstep : (Decoder.normal.after front).step byte with ⟨next, key⟩
  have hkey : keyAt front byte = key := congrArg Prod.snd hstep
  have hnext : next = Decoder.normal.after (front ++ [byte]) := by rw [Decoder.after_snoc, hstep]
  rw [hstep] at hdone
  -- A byte at which the read does not stop and the sheet stays as it is.
  have hidle (hsame : typed limit h.entries (front ++ [byte]) = typed limit h.entries front)
      (hnot : ¬ Stops limit h.entries front byte) (hundone : key ≠ some .enter) :
      Leads limit h front byte (.going next ((typed limit h.entries front).buffer limit)) desk := by
    refine ⟨hnext, by rw [hsame], hmid.screen, hmid.held, hmid.history, ?_, hmid.goesOn.snoc hnot,
      ?_⟩
    · rw [hsame]
      exact hmid.walk
    · rw [← hnext]
      exact fun h => hundone (hdone.1 h)
  cases key with
  | none =>
    rw [taken_of_no_key hstep]
    refine hidle (typed_snoc_of_none hkey) ?_ (by simp)
    rintro (henter | ⟨hend, -⟩)
    · rw [hkey] at henter
      cases henter
    · rw [hkey] at hend
      cases hend
  | some key =>
    by_cases hend : key = .endOfInput
    · subst hend
      rw [taken_of_end hstep, Sheet.isEmpty_buffer]
      by_cases hempty : (typed limit h.entries front).text.isEmpty = true
      · rw [if_pos hempty]
        refine ⟨⟨hkey, List.isEmpty_iff.1 hempty⟩, hmid.history, hmid.screen.accept _, ?_⟩
        show desk.machine.screen.pending ++ desk.machine.screen.accepted (bytesOf "\n") = _
        rw [hmid.held, hmid.screen.accepted]
        rfl
      · rw [if_neg hempty]
        refine hidle (typed_snoc_of_key hkey) ?_ (by simp)
        rintro (henter | ⟨-, hnil⟩)
        · rw [hkey] at henter
          cases henter
        · exact hempty (List.isEmpty_iff.2 hnil)
    · obtain ⟨hbuffer, hwalk, hhistory⟩ := hmid.struck prompt hkey
      have hscreen := (echoed_neverFails hmid.screen
        (stroke prompt key ((typed limit h.entries front).buffer limit) desk.history).echo).settled
      rw [taken_of_key hstep hend]
      by_cases henter : next = .done
      · rw [if_pos henter]
        refine ⟨hkey.trans (hdone.1 henter), ?_, hhistory, hscreen, rfl⟩
        rw [hbuffer]
        rfl
      · rw [if_neg henter]
        refine ⟨hnext, hbuffer, hscreen, rfl, hhistory, hwalk, hmid.goesOn.snoc ?_, ?_⟩
        · rintro (hstop | ⟨hstop, -⟩)
          · exact henter (hdone.2 (hkey.symm.trans hstop))
          · rw [hkey] at hstop
            exact hend (Option.some.inj hstop)
        · rwa [← hnext]

/-! ### Every byte -/

/-- **Reading keys** behind some bytes that were read already. It fails only if the keys break
down. -/
theorem ends_readKeys (prompt : String) (unread : Bytes)
    (hunread : desk.machine.keys.unread = unread)
    (hmid : Midway limit h front desk) :
    Ends (readKeys prompt unread (Decoder.normal.after front)
        ((typed limit h.entries front).buffer limit)) desk
      (fun b later => (∃ stop, Came limit h (front ++ unread) (b.map (·.chars)) h later stop) ∧
        (desk.machine.keys.failsAfter = none → later.machine.keys.failsAfter = none))
      (fun _ => desk.machine.keys.failsAfter ≠ none) := by
  induction unread generalizing front desk with
  | nil =>
    rw [readKeys]
    refine Ends.bind (DeskM.ends_nextByte desk) fun byte asked hasked => ends_pure ?_
    obtain ⟨-, rfl⟩ := hasked
    have hall : Came limit h (front ++ []) (leftover ((typed limit h.entries front).buffer limit)
        |>.map (·.chars)) h { desk with machine := desk.machine.asked } .exhausted := by
      refine ⟨⟨front, ?_, ?_⟩, hmid.history, hmid.screen, hmid.held⟩
      · have hrest : desk.machine.asked.keys.unread = [] := by
          show desk.machine.keys.unread.tail = []
          rw [hunread, List.tail_nil]
        rw [List.append_nil]
        dsimp only
        rw [hrest]
        exact .exhausted front hmid.goesOn
      · rw [leftover, Sheet.isEmpty_buffer, Stop.text]
        split <;> rfl
    refine ⟨⟨_, hall⟩, fun hkeys => ?_⟩
    show desk.machine.keys.failsAfter.map (· - 1) = none
    rw [hkeys, Option.map_none]
  | cons byte unread ih =>
    rw [readKeys]
    refine Ends.bind (DeskM.ends_nextByte desk) fun byte' asked hasked => ?_
    obtain ⟨rfl, rfl⟩ := hasked
    rw [hunread, List.head?_cons]
    dsimp only
    have hasked : Midway limit h front { desk with machine := desk.machine.asked } :=
      ⟨hmid.screen, hmid.held, hmid.history, hmid.walk, hmid.goesOn, hmid.undone⟩
    have hleads := hasked.leads prompt byte
    have htake := @take_of_neverFails prompt byte (Decoder.normal.after front)
      ((typed limit h.entries front).buffer limit) _ hasked.screen
    have hsame := @sameInside_taken prompt byte (Decoder.normal.after front)
      ((typed limit h.entries front).buffer limit) { desk with machine := desk.machine.asked }
    generalize taken prompt byte (Decoder.normal.after front)
      ((typed limit h.entries front).buffer limit)
      { desk with machine := desk.machine.asked } = r at hleads htake hsame
    obtain ⟨reading, later⟩ := r
    have hrest : later.machine.keys.unread = unread := by
      rw [hsame.keys]
      show desk.machine.keys.unread.tail = unread
      rw [hunread, List.tail_cons]
    have hkeys : desk.machine.keys.failsAfter = none → later.machine.keys.failsAfter = none := by
      intro hnone
      rw [hsame.keys]
      show desk.machine.keys.failsAfter.map (· - 1) = none
      rw [hnone, Option.map_none]
    refine ends_bind_of_ok htake ?_
    cases reading with
    | going decoder b =>
      obtain ⟨rfl, rfl, hnext⟩ := hleads
      have hsplit : front ++ byte :: unread = front ++ [byte] ++ unread := by
        rw [List.append_assoc, List.singleton_append]
      rw [hsplit]
      refine (ih hrest hnext).mono ?_ ?_
      · rintro b end' ⟨hcame, hafter⟩
        exact ⟨hcame, fun hnone => hafter (hkeys hnone)⟩
      · intro end' hbroken hnone
        exact hbroken (hkeys hnone)
    | complete b =>
      obtain ⟨hkey, hchars, hhistory, hscreen, hheld⟩ := hleads
      refine ends_pure ⟨⟨.entered, ⟨front ++ [byte], ?_, ?_⟩, hhistory, hscreen, hheld⟩, hkeys⟩
      · rw [hrest]
        exact .entered front byte unread hmid.goesOn hkey
      · rw [Option.map_some, hchars]
        rfl
    | ended =>
      obtain ⟨hkey, hhistory, hscreen, hheld⟩ := hleads
      refine ends_pure ⟨⟨.dismissed, ⟨front ++ [byte], ?_, rfl⟩, hhistory, hscreen, hheld⟩, hkeys⟩
      rw [hrest]
      exact .dismissed front byte unread hmid.goesOn hkey

/-! ### From the prompt to the line -/

/-- A read that is prepared has gone over no byte. -/
theorem midway_prepared (limit : Nat) (prompt : String) {loaded : Desk}
    (hscreen : loaded.machine.screen.NeverFails) :
    Midway limit loaded.history.resetRecall [] (prepared prompt loaded) where
  screen := (hscreen.accept _).settled
  held := rfl
  history := rfl
  walk := Walk.at_start loaded.history
  goesOn := goesOn_nil
  undone := by decide

/-- **A read on a screen that never fails.** It fails only if the keys break down. -/
theorem ends_readLine (maxLength : Nat) (prompt : String) {loaded : Desk}
    (hload : History.ensureLoaded desk = .ok ⟨⟩ loaded)
    (hscreen : desk.machine.screen.NeverFails) :
    Ends (readLine maxLength prompt) desk
      (fun line later => (∃ stop text,
          line = text.map (fun text => finishLine (String.ofList text)) ∧
          Came (max maxLength 1) loaded.history.resetRecall desk.machine.keys.unread text
            (entered loaded.history.resetRecall line) later stop) ∧
        (desk.machine.keys.failsAfter = none → later.machine.keys.failsAfter = none))
      (fun _ => desk.machine.keys.failsAfter ≠ none) := by
  have hmachine : loaded.machine = desk.machine := History.machine_of_ensureLoaded hload
  have hloaded : loaded.machine.screen.NeverFails := by rwa [hmachine]
  have hkeys : (prepared prompt loaded).machine.keys = desk.machine.keys := by
    rw [(sameInside_prepared prompt loaded).keys, hmachine]
  unfold readLine
  refine ends_bind_of_ok (prepare_of_neverFails prompt hload hscreen) (ends_get_bind.2 ?_)
  have hread := ends_readKeys prompt _ rfl (midway_prepared (max maxLength 1) prompt hloaded)
  rw [hkeys] at hread ⊢
  rw [List.nil_append] at hread
  refine Ends.bind hread fun b later hcame => ?_
  obtain ⟨⟨stop, hcame⟩, hafter⟩ := hcame
  cases b with
  | none => exact ends_pure ⟨⟨stop, none, rfl, hcame⟩, hafter⟩
  | some b =>
    have hline : some (finishLine b.line)
        = (some b.chars).map fun text => finishLine (String.ofList text) := by
      rw [Option.map_some, EditBuffer.line]
    have hkept : (kept later.history (finishLine b.line)).resetRecall
        = kept loaded.history.resetRecall (finishLine b.line) := by
      rw [← hcame.history, kept, kept]
      split <;> rfl
    have haccept := accept_eq b later
    -- The line is a name from here on; what it is made from would be unfolded otherwise.
    generalize finishLine b.line = line at hline hkept haccept
    refine ends_bind_of_ok haccept (ends_pure ⟨⟨stop, some b.chars, hline, ?_⟩, hafter⟩)
    exact ⟨hcame.extent, hkept, hcame.screen, hcame.held⟩

end Reads

/-! ## Any number of reads -/

/-- Reads lines, one behind each prompt. -/
def readLines (maxLength : Nat) : List String → DeskM (List (Option String))
  | [] => return []
  | prompt :: prompts => do
    let line ← readLine maxLength prompt
    return line :: (← readLines maxLength prompts)

/-- **Reads that follow each other,** each with its own bytes and its line: a read stops where it
has to, its line is what its bytes alone write on a blank sheet, and the next one begins with the
rest of the bytes and the history that the line has entered. -/
inductive Reads (limit : Nat) :
    History → Bytes → List (Bytes × Option String) → History → Bytes → Prop where
  | nil (h : History) (unread : Bytes) : Reads limit h unread [] h unread
  | cons {h last : History} {unread own rest left : Bytes} {stop : Stop}
      {reads : List (Bytes × Option String)} (hextent : Extent limit h.entries unread stop own rest)
      (hreads : Reads limit (entered h (stop.line (typed limit h.entries own).text)) rest reads last
        left) :
      Reads limit h unread ((own, stop.line (typed limit h.entries own).text) :: reads) last left

/-- A read divides the bytes. -/
theorem Extent.split {limit : Nat} {entries : List String} {unread own rest : Bytes} {stop : Stop}
    (h : Extent limit entries unread stop own rest) : own ++ rest = unread := by
  cases h with
  | entered front byte rest hon hkey => exact List.append_assoc _ _ _
  | dismissed front byte rest hon hkey => exact List.append_assoc _ _ _
  | exhausted own hon => exact List.append_nil _

/-- **Reads that follow each other divide the bytes** into those of each read and the rest. -/
theorem Reads.partition {limit : Nat} {h last : History} {unread left : Bytes}
    {reads : List (Bytes × Option String)} (hreads : Reads limit h unread reads last left) :
    reads.flatMap Prod.fst ++ left = unread := by
  induction hreads with
  | nil h unread => rfl
  | cons hextent hreads ih =>
    rw [List.flatMap_cons, List.append_assoc, ih]
    exact hextent.split

/-- A line enters the history, and nothing else changes there. -/
theorem loaded_entered (h : History) (line : Option String) :
    (entered h line).loaded = h.loaded := by
  cases line with
  | none => rfl
  | some line =>
    show (kept h line).loaded = h.loaded
    unfold kept
    split <;> rfl

/-- Reads of a history that is loaded. -/
theorem readLines_of_loaded (maxLength : Nat) (prompts : List String) {desk : Desk}
    (hloaded : desk.history.loaded = true) (hscreen : desk.machine.screen.NeverFails)
    (hkeys : desk.machine.keys.failsAfter = none) :
    ∃ reads later, readLines maxLength prompts desk = .ok (reads.map Prod.snd) later ∧
      reads.length = prompts.length ∧
      Reads (max maxLength 1) desk.history.resetRecall desk.machine.keys.unread reads
        later.history.resetRecall later.machine.keys.unread := by
  induction prompts generalizing desk with
  | nil => exact ⟨[], desk, rfl, rfl, .nil _ _⟩
  | cons prompt prompts ih =>
    have hload := History.ensureLoaded_of_loaded hloaded
    obtain ⟨line, next, hread, ⟨stop, text, hline, hcame⟩, hafter⟩ :=
      (ends_readLine maxLength prompt hload hscreen).exists_ok fun _ hnot => hnot hkeys
    obtain ⟨own, hextent, rfl⟩ := hcame.extent
    have hnext : next.history.loaded = true := by
      rw [show next.history.loaded = next.history.resetRecall.loaded from rfl, hcame.history,
        loaded_entered]
      exact hloaded
    obtain ⟨reads, later, hreads, hlength, hrest⟩ := ih hnext hcame.screen (hafter hkeys)
    rw [hcame.history, hline] at hrest
    refine ⟨(own, line) :: reads, later, ?_, ?_, ?_⟩
    · rw [readLines, bind_of_ok hread, bind_of_ok hreads]
      rfl
    · rw [List.length_cons, List.length_cons, hlength]
    · rw [hline]
      exact .cons hextent hrest

/-- What a read does after loading does not depend on whether loading was done before. -/
theorem readLine_of_ensureLoaded {desk loaded : Desk} (maxLength : Nat) (prompt : String)
    (hload : History.ensureLoaded desk = .ok ⟨⟩ loaded) :
    readLine maxLength prompt desk = readLine maxLength prompt loaded := by
  have hagain : History.ensureLoaded loaded = .ok ⟨⟩ loaded :=
    History.ensureLoaded_of_loaded ((History.ends_ensureLoaded desk).ok _ _ hload)
  have hprepare : prepare prompt desk = prepare prompt loaded :=
    bind_congr (hload.trans hagain.symm)
  exact bind_congr hprepare

/-- **Any number of reads,** at least one, on a terminal that does not fail. Each read takes the
bytes up to the one that stops it and gives the line that they write on a blank sheet; every other
byte is left for the next read. If the log of the history cannot be read, the first read says so
and takes nothing, and the history counts as loaded for the reads to come. -/
theorem readLines_partition (maxLength : Nat) (prompt : String) (prompts : List String)
    (desk : Desk) (hscreen : desk.machine.screen.NeverFails)
    (hkeys : desk.machine.keys.failsAfter = none) :
    match History.ensureLoaded desk with
    | .ok _ loaded => ∃ reads later,
      readLines maxLength (prompt :: prompts) desk = .ok (reads.map Prod.snd) later ∧
        reads.length = prompts.length + 1 ∧
        Reads (max maxLength 1) loaded.history.resetRecall desk.machine.keys.unread reads
          later.history.resetRecall later.machine.keys.unread ∧
        reads.flatMap Prod.fst ++ later.machine.keys.unread = desk.machine.keys.unread
    | .error fault later =>
      readLines maxLength (prompt :: prompts) desk = .error fault later ∧
        later.machine = desk.machine ∧ History.ensureLoaded later = .ok ⟨⟩ later := by
  have hends := History.ends_ensureLoaded desk
  cases hload : History.ensureLoaded desk with
  | ok value loaded =>
    have hmachine : loaded.machine = desk.machine := History.machine_of_ensureLoaded hload
    have hsame : readLines maxLength (prompt :: prompts) desk
        = readLines maxLength (prompt :: prompts) loaded := by
      rw [readLines]
      exact bind_congr (readLine_of_ensureLoaded maxLength prompt hload)
    obtain ⟨reads, later, hreads, hlength, hall⟩ := readLines_of_loaded maxLength
      (prompt :: prompts) (hends.ok _ _ hload) (by rwa [hmachine]) (by rwa [hmachine])
    rw [hmachine] at hall
    exact ⟨reads, later, hsame.trans hreads, hlength, hall, hall.partition⟩
  | error fault later =>
    obtain ⟨hmachine, hloaded⟩ := hends.error _ _ hload
    have hread : readLine maxLength prompt desk = .error fault later :=
      bind_of_error (bind_of_error hload)
    exact ⟨bind_of_error hread, hmachine, History.ensureLoaded_of_loaded hloaded⟩

/-- A desk at which three lines were typed ahead: one that fills the buffer, one that is recalled
and has no room for more, and one that is taken back before the input is ended. One byte more is
there. -/
def typedAhead : Desk :=
  ⟨{ Machine.boot .empty with
      keys := .ofBytes
        [0x61, 0x62, 0x0a, 0x1b, 0x5b, 0x41, 0x63, 0x0d, 0x64, 0x7f, 0x04, 0x65] },
    History.start 4 none⟩

/-- Three reads of what was typed ahead, and the byte that they leave. -/
theorem readLines_partition_typedAhead : ∃ reads later,
    readLines 2 ["$ ", "$ ", "$ "] typedAhead = .ok [some "ab", some "ab", none] later ∧
      reads.map Prod.snd = [some "ab", some "ab", none] ∧
      Reads 2 (History.start 4 none) typedAhead.machine.keys.unread reads
        later.history.resetRecall [0x65] := by
  have hvalue : (match readLines 2 ["$ ", "$ ", "$ "] typedAhead with
      | .ok lines later => some (lines, later.machine.keys.unread)
      | .error _ _ => none) = some ([some "ab", some "ab", none], [0x65]) := by decide +kernel
  obtain ⟨reads, later, hread, -, hreads, -⟩ := readLines_partition 2 "$ " ["$ ", "$ "] typedAhead
    Screen.neverFails_unlimited rfl
  rw [hread] at hvalue
  obtain ⟨hlines, hrest⟩ := Prod.mk.inj (Option.some.inj hvalue)
  rw [hrest] at hreads
  exact ⟨reads, later, by rw [hread, hlines], hlines, hreads⟩

end Editor

end LineShell
