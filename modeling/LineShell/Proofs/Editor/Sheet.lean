import LineShell.Proofs.Editor.Buffer
import LineShell.Proofs.History.Recall
import Mathlib.Data.List.Basic
/-!
An editor without positions.

A sheet is the text before the cursor, the text behind it, and a walk through the lines of a
history; no index occurs in it. A walk keeps the lines that it has not come to, the one that it is
at, and those that it has passed, and a step moves one line from one of them to the next. A key does
to a sheet what it does to the edit buffer and the recall of a history (`Editor.stroke_shows`).
-/

set_option autoImplicit false

namespace LineShell

/-! ## Walks -/

/-- A walk through the lines of a history, from the latest line backwards. -/
structure Walk where
  /-- The lines that are older than the one it is at, latest first. -/
  older : List String
  /-- The line that it is at; none before its first step. -/
  current : Option String
  /-- The lines that it has passed, oldest first. -/
  newer : List String
deriving DecidableEq, Repr

namespace Walk

/-- A walk before its first step. -/
def start (entries : List String) : Walk := ⟨entries.reverse, none, []⟩

/-- A step to the next older line. At the oldest one there is none. -/
def back (w : Walk) : Walk :=
  match w.older with
  | [] => w
  | line :: older => ⟨older, some line, w.current.toList ++ w.newer⟩

/-- A step to the next newer line. From the latest one it leads back to the start. -/
def forth (w : Walk) : Walk :=
  match w.current with
  | none => w
  | some line => ⟨line :: w.older, w.newer.head?, w.newer.tail⟩

/-- The text of the line that a walk is at; before the first step it is empty. -/
def text (w : Walk) : List Char := (w.current.getD "").toList

/-- **A walk is where a history's recall is.** -/
structure At (w : Walk) (h : History) : Prop where
  lines : h.entries.reverse = w.newer.reverse ++ (w.current.toList ++ w.older)
  position : h.recalled = w.current.map fun _ => w.newer.length
  started : w.current = none → w.newer = []

variable {w : Walk} {h : History}

theorem at_start (h : History) : (start h.entries).At h.resetRecall :=
  ⟨rfl, rfl, fun _ => rfl⟩

/-- The number of lines of a history, counted along a walk. -/
theorem At.length (hat : w.At h) :
    h.entries.length = w.newer.length + (w.current.toList.length + w.older.length) := by
  rw [← List.length_reverse, hat.lines, List.length_append, List.length_append,
    List.length_reverse]

/-- **The line that is recalled** is the one that the walk is at. -/
theorem At.recalledLine (hat : w.At h) : h.recalledLine.toList = w.text := by
  unfold History.recalledLine text
  rw [hat.position]
  cases hcurrent : w.current with
  | none => rfl
  | some line =>
    have hlength := hat.length
    have hlines := hat.lines
    rw [hcurrent] at hlength hlines
    simp only [Option.toList_some, List.length_singleton] at hlength
    have hindex : w.newer.length < h.entries.length := by omega
    have hget : h.entries[h.entries.length - 1 - w.newer.length]? = some line := by
      have hpassed : w.newer.reverse.length ≤ w.newer.length := Nat.le_of_eq List.length_reverse
      rw [← List.getElem?_reverse hindex, hlines, List.getElem?_append_right hpassed,
        List.length_reverse, Nat.sub_self]
      rfl
    rw [Option.map_some]
    dsimp only
    rw [hget]

/-- **A step to an older line.** -/
theorem At.back (hat : w.At h) : w.back.At { h with recalled := h.step .older } := by
  have hlength := hat.length
  have hlines := hat.lines
  unfold Walk.back History.step
  dsimp only
  rw [hat.position]
  cases holder : w.older with
  | nil =>
    -- There is no older line, so neither of the two moves.
    rw [holder] at hlength
    cases hcurrent : w.current with
    | none =>
      rw [hcurrent, hat.started hcurrent] at hlength
      have hempty : h.entries = [] := List.length_eq_zero_iff.1 hlength
      refine ⟨hlines, ?_, hat.started⟩
      dsimp only
      rw [Option.map_none, hempty, hcurrent]
      rfl
    | some line =>
      rw [hcurrent] at hlength
      simp only [Option.toList_some, List.length_singleton, List.length_nil] at hlength
      refine ⟨hlines, ?_, hat.started⟩
      dsimp only
      rw [Option.map_some, hcurrent]
      exact if_neg (by omega)
  | cons line older =>
    rw [holder] at hlength hlines
    cases hcurrent : w.current with
    | none =>
      have hnewer := hat.started hcurrent
      rw [hcurrent, hnewer] at hlength hlines
      have hfull : h.entries.isEmpty = false := by
        rw [List.isEmpty_eq_false_iff]
        intro hempty
        rw [hempty, List.length_nil, List.length_cons] at hlength
        omega
      refine ⟨?_, ?_, fun hnone => nomatch hnone⟩
      · dsimp only
        rw [hlines, hnewer]
        rfl
      · dsimp only
        rw [Option.map_none, hfull, hnewer]
        rfl
    | some passed =>
      rw [hcurrent] at hlength hlines
      simp only [Option.toList_some, List.length_cons] at hlength
      refine ⟨?_, ?_, fun hnone => nomatch hnone⟩
      · dsimp only
        rw [hlines]
        simp only [Option.toList_some, List.singleton_append, List.reverse_cons,
          List.append_assoc]
      · dsimp only
        rw [Option.map_some]
        refine (if_pos (by omega)).trans ?_
        simp

/-- **A step to a newer line.** -/
theorem At.forth (hat : w.At h) : w.forth.At { h with recalled := h.step .newer } := by
  have hlines := hat.lines
  unfold Walk.forth History.step
  dsimp only
  rw [hat.position]
  cases hcurrent : w.current with
  | none =>
    refine ⟨hlines, ?_, hat.started⟩
    rw [hcurrent]
    rfl
  | some line =>
    rw [hcurrent] at hlines
    cases hnewer : w.newer with
    | nil =>
      rw [hnewer] at hlines
      exact ⟨hlines, rfl, fun _ => rfl⟩
    | cons next newer =>
      rw [hnewer] at hlines
      refine ⟨?_, rfl, fun hnone => nomatch hnone⟩
      dsimp only
      rw [hlines]
      simp only [Option.toList_some, List.head?_cons, List.tail_cons, List.reverse_cons,
        List.append_assoc, List.singleton_append]

end Walk

/-! ## Sheets -/

/-- The line that is written, and the walk that goes with it. -/
structure Sheet where
  /-- The text before the cursor. -/
  before : List Char
  /-- The text behind the cursor. -/
  behind : List Char
  walk : Walk
deriving DecidableEq, Repr

namespace Sheet

/-- A sheet on which nothing has been written. -/
def blank (entries : List String) : Sheet := ⟨[], [], .start entries⟩

/-- The text on a sheet. -/
def text (s : Sheet) : List Char := s.before ++ s.behind

/-- A sheet with the line that a walk is at, as much of it as fits. -/
def showing (limit : Nat) (walk : Walk) : Sheet := ⟨walk.text.take limit, [], walk⟩

/-- **One key on a sheet** that takes so many characters. -/
def press (limit : Nat) (s : Sheet) : Key → Sheet
  | .char c => if limit ≤ s.text.length then s else { s with before := s.before ++ [c] }
  | .backspace => { s with before := s.before.dropLast }
  | .left =>
    match s.before.getLast? with
    | none => s
    | some c => { s with before := s.before.dropLast, behind := c :: s.behind }
  | .right =>
    match s.behind with
    | [] => s
    | c :: behind => { s with before := s.before ++ [c], behind }
  | .up => showing limit s.walk.back
  | .down => showing limit s.walk.forth
  | .enter => s
  | .endOfInput => s

/-- A sheet after some keys. -/
def pressAll (limit : Nat) (s : Sheet) (keys : List Key) : Sheet := keys.foldl (press limit) s

/-- The buffer that a sheet stands for. -/
def buffer (limit : Nat) (s : Sheet) : EditBuffer := .between s.before s.behind limit

variable {limit : Nat} {s : Sheet}

theorem isEmpty_buffer (limit : Nat) (s : Sheet) : (s.buffer limit).isEmpty = s.text.isEmpty := rfl

end Sheet

/-! ## Sheets and buffers -/

namespace Editor

variable {limit : Nat} {s : Sheet} {h : History}

/-- Recalling a line and putting it into the buffer. -/
theorem shows_recalled {walk : Walk} (prompt : String) (direction : Recall)
    (hwalk : walk.At { h with recalled := h.step direction }) :
    (recalled prompt direction (s.buffer limit) h).buffer = (Sheet.showing limit walk).buffer limit
      ∧ walk.At (recalled prompt direction (s.buffer limit) h).history := by
  refine ⟨?_, hwalk⟩
  show (s.buffer limit).replace (h.revisit direction).1.toList = _
  rw [Sheet.buffer, EditBuffer.replace_between, Sheet.buffer, Sheet.showing]
  have hline : (h.revisit direction).1.toList = walk.text := hwalk.recalledLine
  rw [hline]

/-- **A key does the same to the buffer and the history as to the sheet.** -/
theorem stroke_shows (limit : Nat) (prompt : String) (key : Key) (hwalk : s.walk.At h) :
    (stroke prompt key (s.buffer limit) h).buffer = (s.press limit key).buffer limit
      ∧ (s.press limit key).walk.At (stroke prompt key (s.buffer limit) h).history := by
  obtain ⟨before, behind, walk⟩ := s
  cases key with
  | char c =>
    unfold stroke Sheet.press Sheet.text
    simp only [Sheet.buffer, EditBuffer.insert?_between, List.length_append]
    by_cases hfull : limit ≤ before.length + behind.length
    · rw [if_pos hfull, if_pos hfull]
      exact ⟨rfl, hwalk⟩
    · rw [if_neg hfull, if_neg hfull]
      exact ⟨rfl, hwalk⟩
  | backspace =>
    unfold stroke Sheet.press
    rcases List.eq_nil_or_concat' before with rfl | ⟨front, c, rfl⟩
    · exact ⟨rfl, hwalk⟩
    · simp only [Sheet.buffer, EditBuffer.delete?_between, List.dropLast_concat]
      exact ⟨trivial, hwalk⟩
  | left =>
    unfold stroke Sheet.press
    rcases List.eq_nil_or_concat' before with rfl | ⟨front, c, rfl⟩
    · exact ⟨rfl, hwalk⟩
    · simp only [Sheet.buffer, EditBuffer.left?_between, List.getLast?_concat,
        List.dropLast_concat]
      exact ⟨trivial, hwalk⟩
  | right =>
    unfold stroke Sheet.press
    cases behind with
    | nil =>
      simp only [Sheet.buffer, EditBuffer.right?_between_nil]
      exact ⟨trivial, hwalk⟩
    | cons c rest =>
      simp only [Sheet.buffer, EditBuffer.right?_between]
      exact ⟨trivial, hwalk⟩
  | up => exact shows_recalled prompt .older hwalk.back
  | down => exact shows_recalled prompt .newer hwalk.forth
  | enter => exact ⟨rfl, hwalk⟩
  | endOfInput => exact ⟨rfl, hwalk⟩

end Editor

end LineShell
