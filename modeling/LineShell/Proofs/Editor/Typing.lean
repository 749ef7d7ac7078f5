import LineShell.Proofs.Editor.Buffer
import LineShell.Proofs.Editor.Decoding
import LineShell.Proofs.Editor.Reading
/-!
Typing a line from its first character to its end.

At a terminal that never fails a character without controls is added behind the line and is echoed
as itself, however many bytes it has (`resume_char`); so is a text that fits (`resume_text`), and
the key that ends the line makes the read give that text, finished (`readLine_of_typed`).
-/

set_option autoImplicit false

namespace LineShell

namespace Editor

/-- What became of a desk at which a text was echoed, with some bytes left to read. -/
structure Echoed (text : List Char) (rest : Bytes) (desk later : Desk) : Prop where
  ready : Ready later 0
  unread : later.machine.keys.unread = rest
  shared : later.machine.keys.shared = desk.machine.keys.shared
  errors : later.machine.errors = desk.machine.errors
  files : later.machine.files = desk.machine.files
  workDir : later.machine.workDir = desk.machine.workDir
  history : later.history = desk.history
  contents : later.machine.screen.contents
    = desk.machine.screen.contents ++ Utf8.encode text

theorem Echoed.refl {desk : Desk} (h : Ready desk 0) :
    Echoed [] desk.machine.keys.unread desk desk :=
  ⟨h, rfl, rfl, rfl, rfl, rfl, rfl, (List.append_nil _).symm⟩

theorem Echoed.trans {s t : List Char} {rest rest' : Bytes} {a b c : Desk} (h : Echoed s rest a b)
    (h' : Echoed t rest' b c) : Echoed (s ++ t) rest' a c where
  ready := h'.ready
  unread := h'.unread
  shared := h'.shared.trans h.shared
  errors := h'.errors.trans h.errors
  files := h'.files.trans h.files
  workDir := h'.workDir.trans h.workDir
  history := h'.history.trans h.history
  contents := by rw [h'.contents, h.contents, Utf8.encode_append, List.append_assoc]

/-- The history has no part in it. -/
theorem Echoed.withHistory {text : List Char} {rest : Bytes} {desk later : Desk}
    (h : Echoed text rest desk later) (history : History) :
    Echoed text rest { desk with history } { later with history } :=
  ⟨⟨h.ready.screen, h.ready.keys, Nat.zero_le _⟩, h.unread, h.shared, h.errors, h.files, h.workDir,
    rfl, h.contents⟩

variable (prompt : String) {byte : UInt8} {rest : Bytes} {decoder next : Decoder} {b : EditBuffer}
  {desk : Desk}

/-- One more byte is ready where one is left. -/
theorem Ready.of_cons (h : Ready desk 0) (hunread : desk.machine.keys.unread = byte :: rest) :
    Ready desk 1 :=
  ⟨h.screen, h.keys, by rw [hunread, List.length_cons]; omega⟩

/-! ## One byte -/

/-- A byte that completes no key is not echoed. -/
theorem resume_of_no_key (h : Ready desk 0) (hunread : desk.machine.keys.unread = byte :: rest)
    (hstep : decoder.step byte = (next, none)) :
    resume prompt (.going decoder b) desk = resume prompt (.going next b) (awaited desk) ∧
      Echoed [] rest desk (awaited desk) := by
  have hbyte : desk.machine.keys.unread.head? = some byte := by rw [hunread]; rfl
  constructor
  · rw [resume_going (h.of_cons hunread) hbyte, taken_of_no_key hstep]
  · have hrest : (awaited desk).machine.keys.unread = rest := by
      show desk.machine.keys.unread.tail = rest
      rw [hunread, List.tail_cons]
    exact ⟨⟨h.screen, h.keys, Nat.zero_le _⟩, hrest, rfl, rfl, rfl, rfl, rfl,
      (List.append_nil _).symm⟩

/-- Bytes that complete no key are not echoed. -/
theorem resume_of_no_keys {front : Bytes} (h : Ready desk 0)
    (hunread : desk.machine.keys.unread = front ++ rest) (hkeys : decoder.keys front = []) :
    ∃ later, resume prompt (.going decoder b) desk
        = resume prompt (.going (decoder.after front) b) later ∧ Echoed [] rest desk later := by
  induction front generalizing decoder desk with
  | nil =>
    have hrefl := Echoed.refl h
    rw [hunread] at hrefl
    exact ⟨desk, rfl, hrefl⟩
  | cons byte front ih =>
    rw [Decoder.keys_cons, List.append_eq_nil_iff] at hkeys
    have hstep : decoder.step byte = ((decoder.step byte).1, none) :=
      Prod.ext rfl (Option.toList_eq_nil_iff.1 hkeys.1)
    obtain ⟨hresume, hechoed⟩ := resume_of_no_key prompt h hunread hstep
    obtain ⟨later, hresume', hechoed'⟩ := ih hechoed.ready hechoed.unread hkeys.2
    exact ⟨later, hresume.trans hresume', hechoed.trans hechoed'⟩

/-- A byte that completes a key changes the buffer as the key does, and its echo is written. -/
theorem resume_of_key {key : Key} {s : Stroke} {echo : List Char} (h : Ready desk 0)
    (hunread : desk.machine.keys.unread = byte :: rest)
    (hstep : decoder.step byte = (next, some key)) (hkey : key ≠ .endOfInput)
    (hstroke : stroke prompt key b desk.history = s)
    (hhistory : s.history = desk.history) (hecho : (s.echo.getD "").toList = echo) :
    ∃ later, resume prompt (.going decoder b) desk
        = resume prompt (if next = .done then .complete s.buffer else .going next s.buffer) later ∧
      Echoed echo rest desk later := by
  have hbyte : desk.machine.keys.unread.head? = some byte := by rw [hunread]; rfl
  have hrest : (awaited desk).machine.keys.unread = rest := by
    show desk.machine.keys.unread.tail = rest
    rw [hunread, List.tail_cons]
  have htaken : taken prompt byte decoder b (awaited desk)
      = (if next = .done then .complete s.buffer else .going next s.buffer,
          struck (awaited desk) s) := by
    have hawaited : (awaited desk).history = desk.history := rfl
    rw [taken_of_key hstep hkey, hawaited, hstroke]
  have hsame : (awaited desk).machine.SameInside (struck (awaited desk) s).machine :=
    sameInside_struck _ _
  have hscreen : (awaited desk).machine.screen.NeverFails := h.screen
  refine ⟨struck (awaited desk) s, ?_, ?_⟩
  · rw [resume_going (h.of_cons hunread) hbyte, htaken]
  · refine ⟨⟨(echoed_neverFails hscreen _).settled, ?_, Nat.zero_le _⟩, ?_, ?_, hsame.errors,
      hsame.files, hsame.workDir, hhistory, ?_⟩
    · rw [hsame.keys]
      exact h.keys
    · rw [hsame.keys, hrest]
    · rw [hsame.keys]
      rfl
    · rw [contents_struck hscreen, hecho]
      rfl

/-! ## One character -/

/-- The last place of a line takes a character, if there is room, and the echo is the character. -/
theorem stroke_char (prompt : String) {left : List Char} {maxLength : Nat} (c : Char)
    (hroom : left.length < maxLength) (h : History) :
    ∃ s, stroke prompt (.char c) (.between left [] maxLength) h = s ∧
      s.buffer = .between (left ++ [c]) [] maxLength ∧ s.history = h ∧
      (s.echo.getD "").toList = [c] := by
  have hnot : ¬ maxLength ≤ left.length + ([] : List Char).length := by
    rw [List.length_nil]
    omega
  refine ⟨_, rfl, ?_⟩
  unfold stroke
  dsimp only
  rw [EditBuffer.insert?_between, if_neg hnot]
  refine ⟨rfl, rfl, ?_⟩
  rw [Option.getD_some, String.toList_append, Echo.toList_tail, EditBuffer.suffix_between,
    show c.toString.toList = [c] from String.toList_singleton c]
  rfl

/-- **A character that is typed** is put behind the line and echoed. -/
theorem resume_char {maxLength : Nat} {left : List Char} {c : Char} (h : Ready desk 0)
    (hunread : desk.machine.keys.unread = String.utf8EncodeChar c ++ rest) (hc : Printable c)
    (hroom : left.length < maxLength) :
    ∃ later, resume prompt (.going .normal (.between left [] maxLength)) desk
        = resume prompt (.going .normal (.between (left ++ [c]) [] maxLength)) later ∧
      Echoed [c] rest desk later := by
  have hnormal : Decoder.normal.TakesText := trivial
  obtain ⟨front, last, henc, hkeys, hstep⟩ := Decoder.exists_last_byte hnormal hc
  rw [henc, List.append_assoc, List.singleton_append] at hunread
  obtain ⟨middle, hresume, hechoed⟩ := resume_of_no_keys prompt h hunread hkeys
  obtain ⟨s, hstroke, hbuffer, hhistory, hecho⟩ := stroke_char prompt c hroom middle.history
  obtain ⟨later, hresume', hechoed'⟩ := resume_of_key prompt hechoed.ready hechoed.unread hstep
    (by simp) hstroke hhistory hecho
  refine ⟨later, ?_, hechoed.trans hechoed'⟩
  rw [hresume, hresume', if_neg (by simp), hbuffer]

/-! ## One line -/

/-- **A text that is typed** is put behind the line and echoed, if there is room for it. -/
theorem resume_text {maxLength : Nat} {left text : List Char} (h : Ready desk 0)
    (hunread : desk.machine.keys.unread = Utf8.encode text ++ rest)
    (htext : ∀ c ∈ text, Printable c) (hroom : left.length + text.length ≤ maxLength) :
    ∃ later, resume prompt (.going .normal (.between left [] maxLength)) desk
        = resume prompt (.going .normal (.between (left ++ text) [] maxLength)) later ∧
      Echoed text rest desk later := by
  induction text generalizing left desk with
  | nil =>
    refine ⟨desk, by rw [List.append_nil], ?_⟩
    have hrefl := Echoed.refl h
    rwa [hunread] at hrefl
  | cons c text ih =>
    rw [Utf8.encode, List.flatMap_cons, List.append_assoc] at hunread
    rw [List.length_cons] at hroom
    have hone : left.length < maxLength := by omega
    have hmore : (left ++ [c]).length + text.length ≤ maxLength := by
      rw [List.length_append, List.length_singleton]
      omega
    obtain ⟨middle, hresume, hechoed⟩ :=
      resume_char prompt h hunread (htext c List.mem_cons_self) hone
    obtain ⟨later, hresume', hechoed'⟩ := ih hechoed.ready hechoed.unread
      (fun d hd => htext d (List.mem_cons_of_mem c hd)) hmore
    refine ⟨later, ?_, ?_⟩
    · rw [hresume, hresume', List.append_assoc, List.singleton_append]
    · exact hechoed.trans hechoed'

/-- The key that ends a line completes it. -/
theorem resume_enter (h : Ready desk 0) (hunread : desk.machine.keys.unread = 0x0a :: rest) :
    ∃ later, resume prompt (.going .normal b) desk = resume prompt (.complete b) later ∧
      Echoed ['\n'] rest desk later := by
  have hstep : Decoder.normal.step 0x0a = (.done, some .enter) := by decide
  have hstroke : stroke prompt .enter b desk.history = ⟨b, desk.history, some "\n"⟩ := rfl
  have hecho : (Option.getD (some "\n") "").toList = ['\n'] := by
    rw [Option.getD_some]
    decide
  obtain ⟨later, hresume, hechoed⟩ :=
    resume_of_key prompt h hunread hstep (by simp) hstroke rfl hecho
  exact ⟨later, by rw [hresume, if_pos rfl], hechoed⟩

/-- A line that was read enters the history unless it is empty. -/
def kept (h : History) (line : String) : History := if line.isEmpty then h else h.record line

theorem logs_kept (h : History) (line : String) : (kept h line).logs = h.logs := by
  unfold kept
  cases line.isEmpty with
  | true => rfl
  | false => rfl

theorem accept_eq (b : EditBuffer) (desk : Desk) :
    accept b desk = .ok (finishLine b.line)
      { desk with history := kept desk.history (finishLine b.line) } := by
  unfold accept kept
  generalize finishLine b.line = line
  dsimp only
  cases line.isEmpty <;> rfl

/-- The prompt is echoed before anything is typed. -/
theorem echoed_prepared {loaded : Desk} (hload : History.ensureLoaded desk = .ok ⟨⟩ loaded)
    (h : Ready desk 0) : Echoed prompt.toList desk.machine.keys.unread
      { desk with history := loaded.history.resetRecall } (prepared prompt loaded) := by
  obtain ⟨machine, history⟩ := loaded
  have hmachine : machine = desk.machine := History.machine_of_ensureLoaded hload
  subst hmachine
  have hready : Ready ⟨desk.machine, history⟩ 0 := ⟨h.screen, h.keys, h.unread⟩
  have hsame : desk.machine.SameInside (prepared prompt ⟨desk.machine, history⟩).machine :=
    sameInside_prepared prompt ⟨desk.machine, history⟩
  refine ⟨ready_prepared hready, ?_, ?_, hsame.errors, hsame.files, hsame.workDir, rfl, ?_⟩
  · rw [hsame.keys]
  · rw [hsame.keys]
  · rw [prepared, Machine.contents_flushed, Machine.contents_wrote h.screen, bytesOf_eq]

/-- **A line that is typed is read:** a text without controls that fits, and the key that ends a
line. What is on the screen afterwards is the prompt and the line. -/
theorem readLine_of_typed {maxLength : Nat} {text : String} {loaded : Desk}
    (hload : History.ensureLoaded desk = .ok ⟨⟩ loaded) (h : Ready desk 0)
    (hunread : desk.machine.keys.unread = bytesOf (text ++ "\n"))
    (htext : ∀ c ∈ text.toList, Printable c) (hfits : text.length ≤ max maxLength 1) :
    ∃ later, readLine maxLength prompt desk = .ok (some (finishLine text)) later ∧
      later.history = kept loaded.history.resetRecall (finishLine text) ∧
      Echoed (prompt.toList ++ text.toList ++ ['\n']) [] { desk with history := later.history }
        later := by
  have hprepare : prepare prompt desk = .ok ⟨⟩ (prepared prompt loaded) :=
    prepare_of_neverFails prompt hload h.screen
  have hprompt := echoed_prepared prompt hload h
  have hbytes : desk.machine.keys.unread = Utf8.encode text.toList ++ [0x0a] := by
    rw [hunread, bytesOf_append]
    rfl
  have hroom : ([] : List Char).length + text.toList.length ≤ max maxLength 1 := by
    rw [String.length_toList, List.length_nil, Nat.zero_add]
    exact hfits
  obtain ⟨typed, htyped, hechoed⟩ :=
    resume_text prompt hprompt.ready (hprompt.unread.trans hbytes) htext hroom
  obtain ⟨ended, hended, hfeed⟩ :=
    resume_enter prompt (b := .between ([] ++ text.toList) [] (max maxLength 1)) hechoed.ready
      hechoed.unread
  have hline : (EditBuffer.between ([] ++ text.toList) [] (max maxLength 1)).line = text := by
    rw [EditBuffer.line, EditBuffer.chars_between, List.append_nil, List.nil_append,
      String.ofList_toList]
  have hall := (hprompt.trans hechoed).trans hfeed
  have hhistory : ended.history = loaded.history.resetRecall := hall.history
  refine ⟨{ ended with history := kept ended.history (finishLine text) }, ?_, ?_, ?_⟩
  · rw [readLine_eq_resume, bind_of_ok hprepare, start, EditBuffer.empty_eq_between, htyped, hended,
      resume, bind_of_ok (accept_eq _ ended), hline]
    rfl
  · rw [hhistory]
  · generalize kept ended.history (finishLine text) = history
    exact hall.withHistory history

/-- **At the end of the input** nothing is read, and nothing but the prompt is written. -/
theorem readLine_of_ended {maxLength : Nat} {loaded : Desk}
    (hload : History.ensureLoaded desk = .ok ⟨⟩ loaded) (h : Ready desk 0)
    (hunread : desk.machine.keys.unread = []) :
    ∃ later, readLine maxLength prompt desk = .ok none later ∧
      Echoed prompt.toList [] { desk with history := later.history } later := by
  have hprepare : prepare prompt desk = .ok ⟨⟩ (prepared prompt loaded) :=
    prepare_of_neverFails prompt hload h.screen
  have hprompt := echoed_prepared prompt hload h
  have hnone : (prepared prompt loaded).machine.keys.unread = [] := hprompt.unread.trans hunread
  have hkeys : readKeys prompt [] .normal (.empty (max maxLength 1)) (prepared prompt loaded)
      = .ok none (awaited (prepared prompt loaded)) := by
    rw [readKeys, bind_of_ok (DeskM.nextByte_of_failsAfter hprompt.ready.keys)]
    rfl
  refine ⟨awaited (prepared prompt loaded), ?_, ?_⟩
  · rw [readLine_eq_resume, bind_of_ok hprepare, start, resume, get_bind, hnone, bind_of_ok hkeys]
    rfl
  · refine ⟨⟨hprompt.ready.screen, hprompt.ready.keys, Nat.zero_le _⟩, ?_, hprompt.shared,
      hprompt.errors, hprompt.files, hprompt.workDir, rfl, hprompt.contents⟩
    show (prepared prompt loaded).machine.keys.unread.tail = []
    rw [hnone, List.tail_nil]

end Editor

end LineShell
