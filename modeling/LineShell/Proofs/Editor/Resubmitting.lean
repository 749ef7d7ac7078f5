import LineShell.Proofs.Editor.Course
import LineShell.Proofs.History.Positions
import LineShell.Proofs.Line.Finished
/-!
Giving a recalled line once more.

A line that is recalled goes through the buffer and is finished again, so it could be cut off, or
lose white space or what looks like a comment. None of this happens to lines that came out of reads
with the same bound: they fit, and finishing leaves them as they are (`Line.Lasting`). All lines of
a history are such lines after any reads on any terminals, also ones that failed
(`Editor.steady_of_reached`). The arrows that lead to a line are followed by the depth of the recall
(`Editor.course_arrows`), and `Editor.readLine_of_arrows` says that the line is given as it is.
-/

set_option autoImplicit false

namespace LineShell

/-! ## Lines that last -/

/-- A line that is the same again after it was put into a buffer and finished. -/
structure Line.Lasting (limit : Nat) (line : String) : Prop where
  nonempty : line ≠ ""
  fits : line.toList.length ≤ limit
  finished : finishLine line = line

/-- A line that was read lasts, unless it is empty. -/
theorem Line.lasting_finishLine {limit : Nat} {text : String} (hfits : text.toList.length ≤ limit)
    (hline : finishLine text ≠ "") : Line.Lasting limit (finishLine text) := by
  refine ⟨hline, ?_, finishLine_finishLine text⟩
  have hlist : (finishLine text).toList = Line.finished text.toList := String.toList_ofList
  rw [hlist]
  exact (Line.finished_sublist text.toList).length_le.trans hfits

/-- A history without logs, of a capacity, whose lines last. -/
structure History.Steady (capacity limit : Nat) (h : History) : Prop where
  bound : h.capacity = max capacity 1
  length : h.entries.length ≤ h.capacity
  loaded : h.loaded = true
  lines : ∀ line ∈ h.entries, Line.Lasting limit line

namespace History

variable {capacity limit : Nat} {h h' : History}

theorem steady_start (capacity limit : Nat) : Steady capacity limit (start capacity none) :=
  ⟨rfl, Nat.zero_le _, rfl, fun _ hmem => absurd hmem List.not_mem_nil⟩

theorem Steady.within (hsteady : Steady capacity limit h) : Within h := by
  refine ⟨?_, hsteady.length⟩
  rw [hsteady.bound]
  exact Nat.le_max_right _ _

/-- Where the recall is does not matter. -/
theorem Steady.of_resetRecall (hsteady : Steady capacity limit h)
    (hreset : h'.resetRecall = h.resetRecall) : Steady capacity limit h' := by
  have hsame : Steady capacity limit h'.resetRecall := by
    rw [hreset]
    exact ⟨hsteady.bound, hsteady.length, hsteady.loaded, hsteady.lines⟩
  exact ⟨hsame.bound, hsame.length, hsame.loaded, hsame.lines⟩

theorem Steady.record (hsteady : Steady capacity limit h) {line : String}
    (hline : Line.Lasting limit line) : Steady capacity limit (h.record line) := by
  refine ⟨hsteady.bound, (hsteady.within.record line).length, hsteady.loaded, fun other hmem => ?_⟩
  rcases mem_entries_record hmem with hmem | rfl
  · exact hsteady.lines other hmem
  · exact hline

end History

/-- A line that enters a history enters it as it is. -/
theorem History.Steady.entered {capacity limit : Nat} {h : History} {line? : Option String}
    (hsteady : Steady capacity limit h)
    (hline : ∀ line, line? = some line → line ≠ "" → Line.Lasting limit line) :
    Steady capacity limit (Editor.entered h line?) := by
  rcases line? with - | line
  · exact hsteady
  · show Steady capacity limit (Editor.kept h line)
    rw [Editor.kept]
    by_cases hempty : line.isEmpty = true
    · rw [if_pos hempty]
      exact hsteady
    · rw [if_neg hempty]
      exact hsteady.record (hline line rfl fun heq => hempty (String.isEmpty_iff.2 heq))

namespace Editor

/-! ## What a buffer holds -/

/-- A buffer with a bound that it keeps. -/
structure Fits (limit : Nat) (b : EditBuffer) : Prop where
  bound : b.maxLength = limit
  length : b.chars.length ≤ limit

variable {limit : Nat} {b : EditBuffer} {h : History}

theorem fits_empty (limit : Nat) : Fits limit (.empty limit) := ⟨rfl, Nat.zero_le _⟩

theorem Fits.replace (hfits : Fits limit b) (text : List Char) : Fits limit (b.replace text) := by
  refine ⟨hfits.bound, ?_⟩
  show (text.take b.maxLength).length ≤ limit
  rw [List.length_take, hfits.bound]
  exact Nat.min_le_left _ _

/-- **No key makes a buffer hold too much.** -/
theorem Fits.stroke (hfits : Fits limit b) (prompt : String) (key : Key) (h : History) :
    Fits limit (stroke prompt key b h).buffer := by
  have hlength := hfits.length
  cases key with
  | char c =>
    unfold Editor.stroke EditBuffer.insert?
    dsimp only
    by_cases hfull : b.isFull = true
    · rw [if_pos hfull]
      exact hfits
    · rw [if_neg hfull]
      refine ⟨hfits.bound, ?_⟩
      rw [EditBuffer.isFull, decide_eq_true_eq, hfits.bound] at hfull
      show (b.chars.insertIdx b.cursor c).length ≤ limit
      rw [List.length_insertIdx]
      split <;> omega
  | backspace =>
    unfold Editor.stroke EditBuffer.delete?
    rcases b.cursor with - | n
    · exact hfits
    · refine ⟨hfits.bound, ?_⟩
      exact (List.length_eraseIdx_le b.chars n).trans hlength
  | left =>
    unfold Editor.stroke EditBuffer.left?
    rcases b.cursor with - | n
    · exact hfits
    · exact ⟨hfits.bound, hlength⟩
  | right =>
    unfold Editor.stroke EditBuffer.right?
    rcases b.chars[b.cursor]? with - | c
    · exact hfits
    · exact ⟨hfits.bound, hlength⟩
  | up => exact hfits.replace _
  | down => exact hfits.replace _
  | enter => exact hfits
  | endOfInput => exact hfits

/-- The buffer of a read, at any point. -/
def Reading.Fits (limit : Nat) : Reading → Prop
  | .going _ b => Editor.Fits limit b
  | .complete b => Editor.Fits limit b
  | .ended => True

theorem Fits.turn (hfits : Fits limit b) (prompt : String) (byte : UInt8) (decoder : Decoder)
    (h : History) : (turn prompt byte decoder b h).reading.Fits limit := by
  unfold Editor.turn
  dsimp only
  split
  · exact hfits
  · split
    · exact trivial
    · exact hfits
  · split
    · exact hfits.stroke prompt _ h
    · exact hfits.stroke prompt _ h

theorem Fits.course (hfits : Fits limit b) (prompt : String) (unread : Bytes) (decoder : Decoder)
    (h : History) : ∀ b', (course prompt unread decoder b h).buffer = some b' → Fits limit b' := by
  induction unread generalizing decoder b h with
  | nil =>
    intro b' hb'
    rw [Editor.course, leftover] at hb'
    split at hb'
    · cases hb'
    · cases hb'
      exact hfits
  | cons byte unread ih =>
    have hturn := hfits.turn prompt byte decoder h
    intro b' hb'
    rw [Editor.course] at hb'
    generalize Editor.turn prompt byte decoder b h = t at hturn hb'
    obtain ⟨requests, reading, history⟩ := t
    cases reading with
    | going next later => exact ih hturn next history b' hb'
    | complete later =>
      cases hb'
      exact hturn
    | ended => cases hb'

/-! ## Any reads before -/

/-- **The histories that an editor comes to,** with reads of lines up to a length on any
terminals. -/
inductive Reached (maxLength capacity : Nat) : History → Prop where
  | start : Reached maxLength capacity (.start capacity none)
  | read {h : History} (hreached : Reached maxLength capacity h) (prompt : String)
      (machine : Machine) :
      Reached maxLength capacity (endOf (readLine maxLength prompt ⟨machine, h⟩)).history

/-- The line that a course gives lasts, unless it is empty. -/
theorem lasting_course (maxLength : Nat) (prompt : String) (unread : Bytes) (h : History) :
    ∀ line, (courseOf maxLength prompt unread h).line = some line → line ≠ "" →
      Line.Lasting (max maxLength 1) line := by
  have hfits := (fits_empty (max maxLength 1)).course prompt unread .normal h.resetRecall
  intro line hline hne
  obtain ⟨b, hbuffer, rfl⟩ := Option.map_eq_some_iff.1 hline
  have hlength : b.line.toList.length ≤ max maxLength 1 := by
    rw [EditBuffer.line, String.toList_ofList]
    exact (hfits b hbuffer).length
  exact Line.lasting_finishLine hlength hne

/-- **One read** leaves lines that last, whether it succeeds or fails. -/
theorem steady_readLine {capacity maxLength : Nat}
    (hsteady : h.Steady capacity (max maxLength 1)) (prompt : String) (machine : Machine) :
    (endOf (readLine maxLength prompt ⟨machine, h⟩)).history.Steady capacity
      (max maxLength 1) := by
  have hasks := @asks_readLine ⟨machine, h⟩ maxLength prompt hsteady.loaded
  have hreset := history_courseOf maxLength prompt machine.keys.unread h
  have hline := lasting_course maxLength prompt machine.keys.unread h
  dsimp only at hasks
  generalize courseOf maxLength prompt machine.keys.unread h = c at hasks hreset hline
  rcases hask : Effect.askAll c.requests machine with ⟨⟨⟩, m⟩ | ⟨cause, m⟩
  · rw [hasks.granted m hask]
    exact (hsteady.of_resetRecall hreset).entered hline
  · obtain ⟨moved, hread, hmoved⟩ := hasks.refused cause m hask
    rw [hread]
    exact hsteady.of_resetRecall hmoved

/-- **After any reads the lines last.** -/
theorem steady_of_reached {maxLength capacity : Nat} (hreached : Reached maxLength capacity h) :
    h.Steady capacity (max maxLength 1) := by
  induction hreached with
  | start => exact History.steady_start capacity _
  | read _ prompt machine ih => exact steady_readLine ih prompt machine

/-! ## Arrows -/

/-- The bytes of the arrow key for a direction. -/
def arrow : Recall → Bytes
  | .older => [0x1b, 0x5b, 0x41]
  | .newer => [0x1b, 0x5b, 0x42]

/-- Some arrows in the same direction. -/
def arrows (direction : Recall) (n : Nat) : Bytes := (List.replicate n (arrow direction)).flatten

/-- The buffer holds what is recalled, as much of it as fits. -/
structure On (limit : Nat) (b : EditBuffer) (h : History) : Prop where
  bound : b.maxLength = limit
  chars : b.chars = h.recalledLine.toList.take limit

theorem on_start (limit : Nat) (h : History) : On limit (.empty limit) h.resetRecall :=
  ⟨rfl, List.take_nil.symm⟩

/-- A line that lasts is in the buffer as it is. -/
theorem On.line (hon : On limit b h) (hlasting : Line.Lasting limit h.recalledLine) :
    b.line = h.recalledLine := by
  rw [EditBuffer.line, hon.chars, List.take_of_length_le hlasting.fits, String.ofList_toList]

/-- **One arrow** recalls a line into the buffer. -/
theorem course_arrow (hon : On limit b h) (direction : Recall) (prompt : String) (unread : Bytes) :
    ∃ requests b', course prompt (arrow direction ++ unread) .normal b h
        = (course prompt unread .normal b' (h.revisit direction).2).behind requests ∧
      On limit b' (h.revisit direction).2 := by
  have hrecalled : On limit (b.replace (h.revisit direction).1.toList)
      (h.revisit direction).2 := by
    refine ⟨hon.bound, ?_⟩
    show (h.revisit direction).1.toList.take b.maxLength = _
    rw [hon.bound]
    rfl
  refine ⟨[.key, .key, .key] ++ (echoing (recalled prompt direction b h).echo ++ [.flush]), _, ?_,
    hrecalled⟩
  cases direction with
  | older => rfl
  | newer => rfl

/-- **Some arrows** in the same direction. -/
theorem course_arrows (hon : On limit b h) (direction : Recall) (n : Nat) (prompt : String)
    (unread : Bytes) :
    ∃ requests b', course prompt (arrows direction n ++ unread) .normal b h
        = (course prompt unread .normal b' (History.revisits direction n h)).behind requests ∧
      On limit b' (History.revisits direction n h) := by
  induction n generalizing b h with
  | zero => exact ⟨[], b, rfl, hon⟩
  | succ n ih =>
    obtain ⟨requests, b', hfirst, hon'⟩ :=
      course_arrow hon direction prompt (arrows direction n ++ unread)
    obtain ⟨more, b'', hrest, hon''⟩ := ih hon'
    refine ⟨requests ++ more, b'', ?_, hon''⟩
    rw [arrows, List.replicate_succ, List.flatten_cons, List.append_assoc, ← arrows, hfirst, hrest,
      Course.behind_behind]
    rfl

/-- The key that ends a line gives the buffer. -/
theorem course_enter {enter : UInt8} (henter : enter = 0x0a ∨ enter = 0x0d) (prompt : String)
    (rest : Bytes) (b : EditBuffer) (h : History) :
    course prompt (enter :: rest) .normal b h = ⟨[.key, .write "\n", .flush], some b, h⟩ := by
  rcases henter with rfl | rfl
  · rfl
  · rfl

/-- What a read comes to that goes back and forth through the history and then gives the line. -/
theorem courseOf_arrows {enter : UInt8} (henter : enter = 0x0a ∨ enter = 0x0d) (maxLength : Nat)
    (prompt : String) (back forth : Nat) (rest : Bytes) (h : History) :
    let moved := History.revisits .newer forth (History.revisits .older back h.resetRecall)
    let c := courseOf maxLength prompt (arrows .older back ++ (arrows .newer forth ++ enter :: rest))
      h
    c.history = moved ∧ ∃ b, c.buffer = some b ∧ On (max maxLength 1) b moved := by
  intro moved c
  obtain ⟨requests, b, hback, hon⟩ := course_arrows (on_start (max maxLength 1) h) .older back prompt
    (arrows .newer forth ++ enter :: rest)
  obtain ⟨more, b', hforth, hon'⟩ := course_arrows hon .newer forth prompt (enter :: rest)
  have hcourse : c = ((Course.mk [.key, .write "\n", .flush] (some b') moved).behind
      (requests ++ more)).behind [.write prompt, .flush] := by
    rw [← Course.behind_behind, ← course_enter henter prompt rest b' moved, ← hforth, ← hback]
    rfl
  rw [hcourse]
  exact ⟨rfl, b', rfl, hon'⟩

/-- **A recalled line is given as it is.** After any reads by an editor, a read that goes back in
the history and forth again, by less than it went back, and then ends the line gives the line that
it has come to, counted from the latest one, and this line is the latest one then. The read is on a
terminal that grants what the read asks for. -/
theorem readLine_of_arrows {maxLength capacity back forth : Nat} {enter : UInt8} {rest : Bytes}
    {machine : Machine} (hreached : Reached maxLength capacity h)
    (hforth : forth < min back h.entries.length) (henter : enter = 0x0a ∨ enter = 0x0d)
    (prompt : String)
    (hunread : machine.keys.unread = arrows .older back ++ (arrows .newer forth ++ enter :: rest))
    (hgrants : machine.Grants (courseOf maxLength prompt machine.keys.unread h).requests) :
    ∃ line later,
      h.entries.reverse[min back h.entries.length - forth - 1]? = some line ∧
      readLine maxLength prompt ⟨machine, h⟩ = .ok (some line) later ∧
      later.history.entries = (h.entries ++ [line]).rtake (max capacity 1) ∧
      later.history.entries.getLast? = some line := by
  have hsteady := steady_of_reached hreached
  have hload := @History.ensureLoaded_of_loaded ⟨machine, h⟩ hsteady.loaded
  obtain ⟨later, hread, hlater⟩ := readLine_of_grants maxLength prompt hload hgrants
  have hcourse := courseOf_arrows henter maxLength prompt back forth rest h
  have hline := History.recalledLine_revisits hforth
  have hreset : (History.revisits .newer forth
      (History.revisits .older back h.resetRecall)).resetRecall = h.resetRecall :=
    (History.resetRecall_revisits .newer forth _).trans (History.resetRecall_revisits .older back _)
  dsimp only at hread hlater hcourse
  rw [← hunread] at hcourse
  generalize History.revisits .newer forth (History.revisits .older back h.resetRecall) = moved
    at hcourse hline hreset
  generalize courseOf maxLength prompt machine.keys.unread h = c at hcourse hread hlater
  obtain ⟨hhistory, b, hbuffer, hon⟩ := hcourse
  have hmoved : moved.Steady capacity (max maxLength 1) := hsteady.of_resetRecall hreset
  have hlasting : Line.Lasting (max maxLength 1) moved.recalledLine :=
    hsteady.lines _ (List.mem_reverse.1 (List.mem_of_getElem? hline))
  -- The line was not cut off in the buffer, and is not finished any further.
  have hsame : c.line = some moved.recalledLine := by
    rw [Course.line, hbuffer, Option.map_some, hon.line hlasting, hlasting.finished]
  have hrecord : later.history = moved.record moved.recalledLine := by
    rw [hlater, hsame, hhistory]
    exact if_neg fun hempty => hlasting.nonempty (String.isEmpty_iff.1 hempty)
  have hentries : later.history.entries
      = (h.entries ++ [moved.recalledLine]).rtake (max capacity 1) := by
    rw [hrecord, History.entries_record hmoved.within, hmoved.bound, entries_of_resetRecall hreset]
  refine ⟨moved.recalledLine, later, hline, ?_, hentries, ?_⟩
  · rw [← hsame]
    exact hread
  · rw [hrecord]
    exact List.getLast?_concat

/-! ### A line with an open quote -/

/-- A machine at which some bytes are typed. -/
def keyed (bytes : Bytes) : Machine := { Machine.boot .empty with keys := .ofBytes bytes }

/-- The history after two lines, the second of which has a quote that is not closed, and after a
read whose screen took nothing. -/
def quoting : History :=
  let first := (endOf (readLine 10 "" ⟨keyed (bytesOf " a b # c\n"), .start 2 none⟩)).history
  let second := (endOf (readLine 10 "" ⟨keyed (bytesOf "'# \n"), first⟩)).history
  let refusing := { keyed (bytesOf "x\n") with screen := .blank (some 0) false }
  (endOf (readLine 10 "> " ⟨refusing, second⟩)).history

theorem reached_quoting : Reached 10 2 quoting :=
  .read (.read (.read .start "" _) "" _) "> " _

/-- The quote hides the mark behind it also when the line is given once more. -/
theorem readLine_of_arrows_quoting : ∃ later,
    readLine 10 "> " ⟨keyed (arrows .older 3 ++ (arrows .newer 1 ++ [0x0a])), quoting⟩
      = .ok (some "'#") later ∧
    later.history.entries = ["'#", "'#"] := by
  have hentries : quoting.entries = ["a b", "'#"] := by decide +kernel
  have hforth : 1 < min 3 quoting.entries.length := by rw [hentries]; decide
  obtain ⟨line, later, hline, hread, hlater, -⟩ :=
    @readLine_of_arrows quoting 10 2 3 1 0x0a []
      (keyed (arrows .older 3 ++ (arrows .newer 1 ++ [0x0a]))) reached_quoting hforth (.inl rfl) "> " rfl
      (Machine.grants_of_neverFails Screen.neverFails_unlimited rfl _)
  rw [hentries] at hline hlater
  obtain rfl : "'#" = line := Option.some.inj hline
  exact ⟨later, hread, hlater⟩

end Editor

end LineShell
