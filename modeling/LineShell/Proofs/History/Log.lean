import LineShell.History
import LineShell.Line
import LineShell.Proofs.Text.Lines
import LineShell.Proofs.Text.Utf8
import LineShell.Proofs.Text.White
import Mathlib.Data.List.DropRight
/-!
Lines in a log.

A line is appended to a log with a line feed behind it. `linesOfLog_entry` says that it is read back
as it was, and that the lines before it are read as they were before: this needs a log that ends
where a line ends (`Settled`), whatever bytes are in it, and a line that is not blank, holds no line
feed and does not end in a carriage return (`Loggable`). `finished` lines are such lines. What a
history keeps of the lines that it is given are the last ones (`entries_recordAll`).
-/

set_option autoImplicit false

namespace LineShell

/-! ## Lines that survive -/

/-- A line that a log gives back. -/
structure Loggable (line : String) : Prop where
  feed : '\n' ∉ line.toList
  ending : line.toList.getLast? ≠ some '\r'
  notBlank : Text.trim line.toList ≠ []

theorem Line.finished_sublist (text : List Char) : (Line.finished text).Sublist text := by
  have huncomment : ∀ (text : List Char) (opened : Option Quote),
      (Line.uncommented opened text).Sublist text := by
    intro text
    induction text with
    | nil => exact fun _ => List.Sublist.refl _
    | cons c text ih =>
      intro opened
      unfold Line.uncommented
      split
      · exact List.nil_sublist _
      · exact (ih _).cons_cons c
  exact (Text.trim_sublist _).trans ((huncomment _ none).trans (Text.trim_sublist text))

/-- **A finished line survives in a log** if the text it was made from held no line feed. -/
theorem loggable_finishLine {text : String} (hfeed : '\n' ∉ text.toList)
    (hline : (finishLine text).isEmpty = false) : Loggable (finishLine text) := by
  have hlist : (finishLine text).toList = Line.finished text.toList := String.toList_ofList
  have hne : Line.finished text.toList ≠ [] := by
    intro hnil
    rw [finishLine, hnil] at hline
    cases hline
  have htrimmed : Text.Trimmed (Line.finished text.toList) := Text.trimmed_trim _
  refine ⟨?_, ?_, ?_⟩
  · rw [hlist]
    exact fun h => hfeed ((Line.finished_sublist _).mem h)
  · rw [hlist]
    exact fun h => absurd (htrimmed.last _ h) (by decide)
  · rw [hlist, Text.trim_of_trimmed htrimmed]
    exact hne

/-! ## Logs that lines are put behind -/

/-- A log that ends where a line ends. -/
def Settled (data : Bytes) : Prop := data = [] ∨ ∃ front, data = front ++ [0x0a]

theorem settled_entry (data : Bytes) (line : String) :
    Settled (data ++ bytesOf (line ++ "\n")) := by
  refine .inr ⟨data ++ bytesOf line, ?_⟩
  rw [bytesOf_append, ← List.append_assoc]
  rfl

/-- The text of a log that ends where a line ends does so too, whatever bytes are in it. -/
theorem Settled.ended {data : Bytes} (h : Settled data) : Text.Ended (Utf8.decodeLossy data) := by
  rcases h with rfl | ⟨front, rfl⟩
  · exact .inl (Utf8.decodeLossy_encode [])
  · have hfeed : Utf8.StartsFresh [0x0a] := Utf8.startsFresh_encode ['\n']
    refine .inr ⟨Utf8.decodeLossy front, ?_⟩
    rw [Utf8.decodeLossy_append hfeed]
    exact congrArg _ (Utf8.decodeLossy_encode ['\n'])

namespace History

theorem linesOfLog_nil : linesOfLog [] = [] := by
  rw [linesOfLog, show Utf8.decodeLossy [] = [] from Utf8.decodeLossy_encode []]
  rfl

/-- **A line that is put behind a log is read back,** and what was there is read as before. -/
theorem linesOfLog_entry {data : Bytes} {line : String} (hdata : Settled data)
    (hline : Loggable line) :
    linesOfLog (data ++ bytesOf (line ++ "\n")) = linesOfLog data ++ [line] := by
  have htext : Utf8.decodeLossy (bytesOf (line ++ "\n")) = line.toList ++ ['\n'] := by
    rw [bytesOf, Utf8.decodeLossy_encode, String.toList_append]
    rfl
  have hfresh : Utf8.StartsFresh (bytesOf (line ++ "\n")) := Utf8.startsFresh_encode _
  have hkept : (!(Text.trim line.toList).isEmpty) = true := by
    rw [Bool.not_eq_true', List.isEmpty_eq_false_iff]
    exact hline.notBlank
  rw [linesOfLog, linesOfLog, Utf8.decodeLossy_append hfresh, htext,
    Text.lines_append_of_ended hdata.ended, Text.lines_line_feed hline.feed hline.ending,
    List.filter_append, List.filter_singleton, hkept, List.map_append, cond_true,
    List.map_singleton, String.ofList_toList]

theorem feed_not_mem_of_mem_linesOfLog {data : Bytes} {line : String}
    (h : line ∈ linesOfLog data) : '\n' ∉ line.toList := by
  obtain ⟨text, htext, rfl⟩ := List.mem_map.1 h
  rw [String.toList_ofList]
  exact Text.feed_not_mem_of_mem_lines (List.mem_of_mem_filter htext)

/-! ## What is kept -/

theorem rtake_append_rtake {α : Type} (s t : List α) (n : Nat) :
    (s.rtake n ++ t).rtake n = (s ++ t).rtake n := by
  simp only [List.rtake, List.drop_append, List.drop_drop, List.length_append, List.length_drop]
  have hleft : s.length - n + (s.length - (s.length - n) + t.length - n)
      = s.length + t.length - n := by omega
  have hright : s.length - (s.length - n) + t.length - n - (s.length - (s.length - n))
      = s.length + t.length - n - s.length := by omega
  rw [hleft, hright]

/-- A history that holds no more lines than it may. -/
structure Within (h : History) : Prop where
  positive : 0 < h.capacity
  length : h.entries.length ≤ h.capacity

theorem within_start (capacity : Nat) (logs : Option Logs) : Within (start capacity logs) :=
  ⟨Nat.le_max_right _ _, Nat.zero_le _⟩

theorem entries_record {h : History} (hwithin : Within h) (line : String) :
    (h.record line).entries = (h.entries ++ [line]).rtake h.capacity := by
  have hpositive := hwithin.positive
  have hlength := hwithin.length
  rw [record, List.rtake, List.length_append, List.length_singleton]
  dsimp only
  split
  · next hfull =>
    have hone : h.entries.length + 1 - h.capacity = 1 := by omega
    rw [hone, List.drop_append_of_le_length (by omega), List.drop_one]
  · next hroom =>
    have hzero : h.entries.length + 1 - h.capacity = 0 := by omega
    rw [hzero, List.drop_zero]

theorem Within.record {h : History} (hwithin : Within h) (line : String) :
    Within (h.record line) := by
  refine ⟨hwithin.positive, ?_⟩
  rw [entries_record hwithin, List.rtake, List.length_drop]
  show _ ≤ h.capacity
  omega

/-- **A history keeps the last of the lines that it is given.** -/
theorem entries_recordAll {h : History} (hwithin : Within h) (lines : List String) :
    (h.recordAll lines).entries = (h.entries ++ lines).rtake h.capacity := by
  induction lines generalizing h with
  | nil =>
    have hlength := hwithin.length
    rw [recordAll, List.foldl_nil, List.append_nil, List.rtake, Nat.sub_eq_zero_of_le hlength,
      List.drop_zero]
  | cons line lines ih =>
    have hcapacity : (h.record line).capacity = h.capacity := rfl
    rw [recordAll, List.foldl_cons, ← recordAll, ih (hwithin.record line), hcapacity,
      entries_record hwithin, rtake_append_rtake, List.append_assoc, List.singleton_append]

theorem mem_entries_record {h : History} {line other : String}
    (hmem : other ∈ (h.record line).entries) : other ∈ h.entries ∨ other = line := by
  rw [record] at hmem
  rcases List.mem_append.1 hmem with hmem | hmem
  · split at hmem
    · exact .inl (List.mem_of_mem_tail hmem)
    · exact .inl hmem
  · exact .inr (List.mem_singleton.1 hmem)

theorem mem_entries_recordAll {h : History} {lines : List String} {other : String}
    (hmem : other ∈ (h.recordAll lines).entries) : other ∈ h.entries ∨ other ∈ lines := by
  induction lines generalizing h with
  | nil => exact .inl hmem
  | cons line lines ih =>
    rw [recordAll, List.foldl_cons, ← recordAll] at hmem
    rcases ih hmem with hmem | hmem
    · rcases mem_entries_record hmem with hmem | rfl
      · exact .inl hmem
      · exact .inr List.mem_cons_self
    · exact .inr (List.mem_cons_of_mem line hmem)

end History

end LineShell
