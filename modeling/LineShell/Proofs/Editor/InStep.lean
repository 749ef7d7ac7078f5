import LineShell.Proofs.Editor.Buffer
import LineShell.Proofs.Editor.Decoding
import LineShell.Proofs.Editor.Reading
import LineShell.Proofs.History.Recall
import LineShell.Proofs.Terminal.Row
/-!
The row on the terminal keeps in step with the edit buffer.

An echo is the least that turns the row of one buffer into the row of the next one, so each key has
an argument of its own; both are read as two texts with the cursor between them, and the echo of a
key is then followed piece by piece. `stroke_inStep` collects the keys, `Shown.taken` goes from keys
to bytes, and `row_in_step` from one byte to any number of them.
-/

set_option autoImplicit false

namespace LineShell

theorem Printable.not_mem_controls {c : Char} (h : Printable c) : c ∉ Row.controls := by
  intro hc
  simp only [Row.controls, List.mem_cons, List.not_mem_nil, or_false] at hc
  rcases hc with rfl | rfl | rfl | rfl <;> exact absurd h (by decide)

namespace Row

/-- **The row that shows a buffer:** the prompt and the line, with the column at the cursor. -/
def showing (prompt : String) (b : EditBuffer) : Row :=
  ⟨prompt.toList ++ b.chars, prompt.toList.length + b.cursor, .idle⟩

theorem showing_between (prompt : String) (left right : List Char) (maxLength : Nat) :
    showing prompt (.between left right maxLength)
      = Row.between (prompt.toList ++ left) right := by
  rw [showing, Row.between, List.length_append, List.append_assoc, EditBuffer.chars_between,
    EditBuffer.cursor_between]

/-- A text with the way back over it puts the text in place of what was there, if it is as long. -/
theorem display_tail {right : List Char} (h : Plain right) (left rest : List Char)
    (hlen : rest.length ≤ right.length) :
    (Row.between left rest).display (right ++ List.replicate right.length '\x08')
      = Row.between left right := by
  rw [display_append, display_plain h, List.drop_eq_nil_of_le hlen, display_stepsBack,
    List.append_nil]

end Row

namespace Editor

/-- A buffer of plain characters, with the cursor inside of it. -/
def PlainLine (b : EditBuffer) : Prop :=
  ∃ left right maxLength, b = .between left right maxLength ∧ Row.Plain left ∧ Row.Plain right

/-- What the echo of a key is for: the row shows the buffer again. -/
structure InStep (prompt : String) (b : EditBuffer) (s : Stroke) : Prop where
  line : PlainLine s.buffer
  row : Row.Plain prompt.toList →
    (Row.showing prompt b).display (s.echo.getD "").toList = Row.showing prompt s.buffer

/-! ## One key -/

section Keys

variable {prompt : String} {b : EditBuffer} {h : History}

/-- A key that does nothing is not echoed. -/
theorem inStep_nothing (hline : PlainLine b) : InStep prompt b ⟨b, h, none⟩ :=
  ⟨hline, fun _ => rfl⟩

theorem inStep_char {c : Char} (hline : PlainLine b) (hc : Printable c) :
    InStep prompt b (stroke prompt (.char c) b h) := by
  obtain ⟨left, right, maxLength, rfl, hleft, hright⟩ := hline
  have hplain : c ∉ Row.controls := hc.not_mem_controls
  have hone : Row.Plain [c] := fun d hd => by rwa [List.mem_singleton.1 hd]
  unfold stroke
  dsimp only
  rw [EditBuffer.insert?_between]
  split_ifs with hfull
  · exact inStep_nothing ⟨left, right, maxLength, rfl, hleft, hright⟩
  · refine ⟨⟨left ++ [c], right, maxLength, rfl, hleft.append hone, hright⟩, fun _ => ?_⟩
    -- The character is written over the first one behind the cursor, which the rest restores.
    rw [Option.getD_some, String.toList_append, Echo.toList_tail, EditBuffer.suffix_between,
      Row.showing_between, Row.showing_between,
      show c.toString.toList = [c] from String.toList_singleton c, List.singleton_append,
      Row.display_cons, Row.put_between hplain,
      Row.display_tail hright _ _ (by rw [List.length_tail]; omega), List.append_assoc]

theorem inStep_backspace (hline : PlainLine b) :
    InStep prompt b (stroke prompt .backspace b h) := by
  obtain ⟨left, right, maxLength, rfl, hleft, hright⟩ := hline
  unfold stroke
  dsimp only
  rcases List.eq_nil_or_concat left with rfl | ⟨left, c, rfl⟩
  · exact inStep_nothing ⟨[], right, maxLength, rfl, hleft, hright⟩
  · rw [List.concat_eq_append] at hleft ⊢
    have hleft' : Row.Plain left := hleft.sublist (List.sublist_append_left left [c])
    rw [EditBuffer.delete?_between]
    refine ⟨⟨left, right, maxLength, rfl, hleft', hright⟩, fun _ => ?_⟩
    rw [Option.getD_some, String.toList_append, String.toList_append, Echo.toList_tail,
      EditBuffer.suffix_between, Row.showing_between, Row.showing_between,
      ← List.append_assoc prompt.toList, Row.display_append,
      show Echo.stepBack.toList = ['\x08'] from rfl, List.singleton_append, Row.display_cons,
      Row.put_stepBack, Row.display_clearToEnd, Row.display_tail hright _ _ (Nat.zero_le _)]

theorem inStep_left (hline : PlainLine b) : InStep prompt b (stroke prompt .left b h) := by
  obtain ⟨left, right, maxLength, rfl, hleft, hright⟩ := hline
  unfold stroke
  dsimp only
  rcases List.eq_nil_or_concat left with rfl | ⟨left, c, rfl⟩
  · exact inStep_nothing ⟨[], right, maxLength, rfl, hleft, hright⟩
  · rw [List.concat_eq_append] at hleft ⊢
    have hleft' : Row.Plain left := hleft.sublist (List.sublist_append_left left [c])
    have hone : Row.Plain [c] := hleft.sublist (List.sublist_append_right left [c])
    rw [EditBuffer.left?_between]
    refine ⟨⟨left, c :: right, maxLength, rfl, hleft', hone.append hright⟩, fun _ => ?_⟩
    rw [Option.getD_some, Row.showing_between, Row.showing_between, ← List.append_assoc,
      show Echo.stepBack.toList = ['\x08'] from rfl, Row.display_cons, Row.display_nil,
      Row.put_stepBack]

theorem inStep_right (hline : PlainLine b) : InStep prompt b (stroke prompt .right b h) := by
  obtain ⟨left, right, maxLength, rfl, hleft, hright⟩ := hline
  unfold stroke
  dsimp only
  cases right with
  | nil =>
    rw [EditBuffer.right?_between_nil]
    exact inStep_nothing ⟨left, [], maxLength, rfl, hleft, hright⟩
  | cons c right =>
    have hc : c ∉ Row.controls := hright c List.mem_cons_self
    have hone : Row.Plain [c] := hright.sublist (List.Sublist.cons_cons c (List.nil_sublist right))
    have hright' : Row.Plain right := hright.sublist (List.sublist_cons_self c right)
    rw [EditBuffer.right?_between]
    refine ⟨⟨left ++ [c], right, maxLength, rfl, hleft.append hone, hright'⟩, fun _ => ?_⟩
    rw [Option.getD_some, Row.showing_between, Row.showing_between,
      show c.toString.toList = [c] from String.toList_singleton c, Row.display_cons,
      Row.display_nil, Row.put_between hc, List.append_assoc, List.tail_cons]

theorem inStep_recalled (hline : PlainLine b)
    (hentries : ∀ line ∈ h.entries, Row.Plain line.toList) (direction : Recall) :
    InStep prompt b (recalled prompt direction b h) := by
  obtain ⟨left, right, maxLength, rfl, hleft, hright⟩ := hline
  have hrecalled : Row.Plain (h.revisit direction).1.toList :=
    History.revisit_line (fun line => Row.Plain line.toList) (fun c hc => by cases hc) hentries
      direction
  have hkept : Row.Plain ((h.revisit direction).1.toList.take maxLength) :=
    hrecalled.sublist (List.take_sublist _ _)
  have hnone : Row.Plain [] := fun c hc => by cases hc
  have hbuffer : (recalled prompt direction (.between left right maxLength) h).buffer
      = .between ((h.revisit direction).1.toList.take maxLength) [] maxLength :=
    EditBuffer.replace_between left right maxLength _
  have hecho : (recalled prompt direction (.between left right maxLength) h).echo
      = some (Echo.clearRow ++ prompt
          ++ String.ofList ((h.revisit direction).1.toList.take maxLength)) := rfl
  refine ⟨⟨_, [], maxLength, hbuffer, hkept, hnone⟩, fun hprompt => ?_⟩
  rw [hecho, hbuffer, Option.getD_some, String.toList_append, String.toList_append,
    String.toList_ofList, Row.showing_between, Row.showing_between, Row.display_append,
    Row.display_append, Row.display_clearRow, Row.display_plain hprompt, Row.display_plain hkept,
    List.nil_append, List.drop_nil, List.drop_nil]

/-- **Every key keeps the row in step.** -/
theorem stroke_inStep {key : Key} (hline : PlainLine b)
    (hentries : ∀ line ∈ h.entries, Row.Plain line.toList)
    (hchar : ∀ c, key = .char c → Printable c) : InStep prompt b (stroke prompt key b h) := by
  cases key with
  | char c => exact inStep_char hline (hchar c rfl)
  | backspace => exact inStep_backspace hline
  | enter =>
    -- The line feed is outside of the picture.
    refine ⟨hline, fun _ => ?_⟩
    have hecho : (stroke prompt .enter b h).echo = some "\n" := rfl
    rw [hecho, Option.getD_some, show "\n".toList = ['\n'] from rfl, Row.display_cons,
      Row.display_nil]
    rfl
  | up => exact inStep_recalled hline hentries .older
  | down => exact inStep_recalled hline hentries .newer
  | left => exact inStep_left hline
  | right => exact inStep_right hline
  | endOfInput => exact inStep_nothing hline

end Keys

/-! ## Any number of bytes -/

/-- The read of a line and the screen: what was written is a text, and while keys are wanted that
text has left the row in step with the buffer. -/
structure Shown (prompt : String) (before : Bytes) (reading : Reading) (desk : Desk) : Prop where
  entries : ∀ line ∈ desk.history.entries, Row.Plain line.toList
  text : ∃ text, desk.machine.screen.contents = before ++ Utf8.encode text ∧
    ∀ decoder b, reading = .going decoder b → decoder ≠ .done ∧ PlainLine b ∧
      (Row.Plain prompt.toList → Row.blank.display text = Row.showing prompt b)

variable {prompt : String} {before : Bytes} {byte : UInt8} {decoder : Decoder} {b : EditBuffer}
  {desk : Desk}

/-- A read that goes on with the same buffer, on a screen that has not changed. -/
theorem Shown.going (h : Shown prompt before (.going decoder b) desk) {next : Decoder}
    (hnext : next ≠ .done) : Shown prompt before (.going next b) (awaited desk) := by
  obtain ⟨text, hcontents, hgoing⟩ := h.text
  refine ⟨h.entries, text, hcontents, fun decoder' b' hreading => ?_⟩
  cases hreading
  exact ⟨hnext, (hgoing decoder b rfl).2⟩

/-- A key that is pressed. -/
theorem Shown.struck (h : Shown prompt before (.going decoder b) desk)
    (hscreen : desk.machine.screen.NeverFails) {next : Decoder} {key : Key}
    (hchar : ∀ c, key = .char c → Printable c) :
    Shown prompt before
      (if next = .done then .complete (stroke prompt key b desk.history).buffer
        else .going next (stroke prompt key b desk.history).buffer)
      (struck (awaited desk) (stroke prompt key b desk.history)) := by
  obtain ⟨text, hcontents, hgoing⟩ := h.text
  obtain ⟨-, hline, hrow⟩ := hgoing decoder b rfl
  have hawaited : (awaited desk).machine.screen.contents = before ++ Utf8.encode text := hcontents
  have hscreen' : (awaited desk).machine.screen.NeverFails := hscreen
  have hstroke : InStep prompt b (stroke prompt key b desk.history) :=
    stroke_inStep hline h.entries hchar
  refine ⟨?_, text ++ ((stroke prompt key b desk.history).echo.getD "").toList, ?_, ?_⟩
  · intro line hmem
    obtain ⟨recalled, hhistory⟩ := history_stroke prompt key b desk.history
    rw [Editor.struck, hhistory] at hmem
    exact h.entries line hmem
  · rw [contents_struck hscreen', hawaited, Utf8.encode_append, List.append_assoc]
  · intro decoder' b' hreading
    by_cases hend : next = .done
    · rw [if_pos hend] at hreading
      cases hreading
    · rw [if_neg hend] at hreading
      cases hreading
      refine ⟨hend, hstroke.line, fun hprompt => ?_⟩
      rw [Row.display_append, hrow hprompt, hstroke.row hprompt]

/-- **A byte keeps the row in step.** -/
theorem Shown.taken (h : Shown prompt before (.going decoder b) desk)
    (hscreen : desk.machine.screen.NeverFails) :
    Shown prompt before (taken prompt byte decoder b (awaited desk)).1
      (taken prompt byte decoder b (awaited desk)).2 := by
  obtain ⟨text, hcontents, hgoing⟩ := h.text
  have hdone : (decoder.step byte).1 = .done ↔ (decoder.step byte).2 = some .enter :=
    Decoder.step_done_iff (hgoing decoder b rfl).1
  rcases hstep : decoder.step byte with ⟨next, key⟩
  rw [hstep] at hdone
  cases key with
  | none =>
    rw [taken_of_no_key hstep]
    exact h.going fun hend => nomatch hdone.1 hend
  | some key =>
    by_cases hkey : key = .endOfInput
    · rw [hkey] at hstep hdone
      rw [taken_of_end hstep]
      by_cases hempty : b.isEmpty = true
      · rw [if_pos hempty]
        have hscreen' : (awaited desk).machine.screen.NeverFails := hscreen
        have hawaited : (awaited desk).machine.screen.contents = before ++ Utf8.encode text :=
          hcontents
        refine ⟨h.entries, text ++ "\n".toList, ?_, fun decoder' b' hreading => by cases hreading⟩
        rw [Machine.contents_wrote hscreen', hawaited, Utf8.encode_append, bytesOf_eq,
          List.append_assoc]
      · rw [if_neg hempty]
        exact h.going fun hend => nomatch hdone.1 hend
    · rw [taken_of_key hstep hkey]
      have hpressed : (decoder.step byte).2 = some key := by rw [hstep]
      exact h.struck hscreen fun c hc => Decoder.printable_of_step (hpressed.trans (hc ▸ rfl))

/-- Once the read is prepared the row shows the prompt and an empty buffer. -/
theorem shown_prepared {loaded : Desk} (maxLength : Nat)
    (hentries : ∀ line ∈ loaded.history.entries, Row.Plain line.toList)
    (hscreen : loaded.machine.screen.NeverFails) :
    Shown prompt loaded.machine.screen.contents (start maxLength) (prepared prompt loaded) := by
  refine ⟨hentries, prompt.toList, ?_, ?_⟩
  · rw [prepared, Machine.contents_flushed, Machine.contents_wrote hscreen, bytesOf_eq]
  · intro decoder b hreading
    cases hreading
    have hnone : Row.Plain [] := fun c hc => by cases hc
    refine ⟨by simp, ⟨[], [], _, EditBuffer.empty_eq_between _, hnone, hnone⟩, fun hprompt => ?_⟩
    have hblank : Row.blank = Row.between [] [] := rfl
    rw [EditBuffer.empty_eq_between, Row.showing_between, hblank, Row.display_plain hprompt,
      List.nil_append, List.append_nil, List.drop_nil]

/-- **The row is in step with the buffer after every byte.** However many bytes of a read are taken,
the read goes on from there, and while it wants keys the row that was blank before the prompt shows
the prompt and the buffer, with the column at the cursor. What a row cannot show is a prompt that is
not plain itself. -/
theorem row_in_step (maxLength : Nat) (prompt : String) (desk loaded : Desk) (n : Nat)
    (hscreen : desk.machine.screen.NeverFails) (hkeys : desk.machine.keys.failsAfter = none)
    (hload : History.ensureLoaded desk = .ok ⟨⟩ loaded)
    (hentries : ∀ line ∈ loaded.history.entries, Row.Plain line.toList)
    (hunread : n ≤ desk.machine.keys.unread.length) :
    ∃ reading shown,
      (do prepare prompt; readSome prompt n (start maxLength) : DeskM Reading) desk
        = .ok reading shown
      ∧ readLine maxLength prompt desk = resume prompt reading shown
      ∧ ∀ decoder b, reading = .going decoder b →
        ∃ written, shown.machine.screen.contents = desk.machine.screen.contents ++ written
          ∧ (((Row.blank.displayBytes written).cells = prompt.toList ++ b.chars
              ∧ (Row.blank.displayBytes written).column = prompt.toList.length + b.cursor)
            ↔ Row.Plain prompt.toList) := by
  have hmachine : loaded.machine = desk.machine := History.machine_of_ensureLoaded hload
  have hloaded : Ready loaded n := by
    refine ⟨?_, ?_, ?_⟩ <;> rw [hmachine] <;> assumption
  have hready : Ready (prepared prompt loaded) n := ready_prepared hloaded
  have hprepare : prepare prompt desk = .ok ⟨⟩ (prepared prompt loaded) :=
    prepare_of_neverFails prompt hload hscreen
  have hstart : Shown prompt loaded.machine.screen.contents (start maxLength)
      (prepared prompt loaded) := shown_prepared maxLength hentries hloaded.screen
  obtain ⟨reading, shown, hread, hshown⟩ :=
    readSome_induction (fun _ _ _ _ h hscreen _ => Shown.taken h hscreen) hready hstart
  refine ⟨reading, shown, ?_, ?_, ?_⟩
  · rw [bind_of_ok hprepare]
    exact hread
  · rw [readLine_eq_resume, bind_of_ok hprepare]
    exact resume_of_readSome hready hread
  · intro decoder b hreading
    obtain ⟨text, hcontents, hgoing⟩ := hshown.text
    obtain ⟨-, -, hrow⟩ := hgoing decoder b hreading
    refine ⟨Utf8.encode text, by rw [hcontents, hmachine], ?_⟩
    rw [Row.displayBytes, Utf8.decodeLossy_encode]
    constructor
    · -- The cells hold the prompt, and no cell holds a control.
      rintro ⟨hcells, -⟩
      have hplain : Row.Plain (Row.blank.display text).cells :=
        Row.plain_cells_display (fun c hc => by cases hc) text
      rw [hcells] at hplain
      exact hplain.sublist (List.sublist_append_left _ _)
    · intro hprompt
      rw [hrow hprompt]
      exact ⟨rfl, rfl⟩

/-- A desk at which bytes are typed, with one line to recall. -/
def typing (bytes : Bytes) : Desk :=
  ⟨{ Machine.boot .empty with keys := .ofBytes bytes }, (History.start 4 none).record "ls"⟩

/-- Two characters, a step to the left, and a third character between the two. -/
theorem row_in_step_insertion : ∃ shown,
    (do prepare "$ "; readSome "$ " 6 (start 8) : DeskM Reading)
        (typing [0x61, 0x62, 0x1b, 0x5b, 0x44, 0x63])
      = .ok (.going .normal ⟨['a', 'c', 'b'], 2, 8⟩) shown
    ∧ (Row.blank.displayBytes shown.machine.screen.contents).cells = "$ acb".toList
    ∧ (Row.blank.displayBytes shown.machine.screen.contents).column = 4 := by
  have hentries : ∀ line ∈ ((History.start 4 none).record "ls").entries,
      Row.Plain line.toList := by
    decide
  obtain ⟨reading, shown, hread, -, hrow⟩ := row_in_step 8 "$ "
    (typing [0x61, 0x62, 0x1b, 0x5b, 0x44, 0x63]) (typing [0x61, 0x62, 0x1b, 0x5b, 0x44, 0x63]) 6
    Screen.neverFails_unlimited rfl rfl hentries (by decide)
  have hreading : reading = .going .normal ⟨['a', 'c', 'b'], 2, 8⟩ := by
    have hvalue : (match (do prepare "$ "; readSome "$ " 6 (start 8) : DeskM Reading)
        (typing [0x61, 0x62, 0x1b, 0x5b, 0x44, 0x63]) with
      | .ok reading _ => some reading
      | .error _ _ => none) = some (.going .normal ⟨['a', 'c', 'b'], 2, 8⟩) := by decide +kernel
    rw [hread] at hvalue
    exact Option.some.inj hvalue
  subst hreading
  obtain ⟨written, hwritten, hrow⟩ := hrow _ _ rfl
  rw [show (typing [0x61, 0x62, 0x1b, 0x5b, 0x44, 0x63]).machine.screen.contents = [] from rfl,
    List.nil_append] at hwritten
  rw [← hwritten] at hrow
  exact ⟨shown, hread, hrow.2 (by decide)⟩

end Editor

end LineShell
