import LineShell.Proofs.History.Log
import Mathlib.Data.Nat.PSub
/-!
The position of the recall.

A history is a pile of lines and a depth: the lines that were recorded, oldest first, of which the
last ones are kept, and how many of these one has gone back, where none is the line that is being
typed. `Pile` says so without an optional index, without making room for a line and without
subtracting from a length, and `performAll_start` holds a history to it: the same answers, the same
lines, the same depth.

Making room moves every line by one while the depth stays, so what has to be carried along is that
the depth is at most the number of lines (`Founded`). It is also all that the arithmetic of a recall
needs (`recallStrictly_eq`).
-/

set_option autoImplicit false

namespace LineShell

namespace History

/-! ## Depth -/

/-- How many lines the recall has gone back, none being the line that is typed. -/
def depth (h : History) : Nat := h.recalled.elim 0 Nat.succ

/-- The recall is on a line that is there, or on none. -/
def Founded (h : History) : Prop := h.depth ≤ h.entries.length

theorem founded_start (capacity : Nat) (logs : Option Logs) : Founded (start capacity logs) :=
  Nat.zero_le _

theorem founded_of_recalled {h : History} (hnone : h.recalled = none) : h.Founded := by
  rw [Founded, depth, hnone]
  exact Nat.zero_le _

theorem isRecalling_iff (h : History) : h.isRecalling = true ↔ 0 < h.depth := by
  rw [isRecalling, depth]
  cases h.recalled with
  | none => simp
  | some n => simp

/-- Stepping towards the latest line goes one line forward, and no further than to the line that is
typed. -/
theorem depth_step_newer (h : History) : (h.step .newer).elim 0 Nat.succ = h.depth - 1 := by
  rw [depth, step]
  rcases h.recalled with - | - | n <;> rfl

/-- Stepping back goes one line back, and no further than to the oldest line. -/
theorem depth_step_older {h : History} (hfounded : h.Founded) :
    (h.step .older).elim 0 Nat.succ = min (h.depth + 1) h.entries.length := by
  rw [Founded, depth] at hfounded
  rw [depth, step]
  rcases hrecalled : h.recalled with - | n
  · dsimp only [Option.elim_none]
    by_cases hempty : h.entries = []
    · rw [if_pos (List.isEmpty_iff.2 hempty), hempty]
      simp
    · have hpositive : 0 < h.entries.length := List.length_pos_of_ne_nil hempty
      rw [if_neg (by rwa [List.isEmpty_iff]), Option.elim_some]
      omega
  · rw [hrecalled, Option.elim_some] at hfounded
    dsimp only [Option.elim_some]
    by_cases hmore : n + 1 < h.entries.length
    · rw [if_pos hmore, Option.elim_some]
      omega
    · rw [if_neg hmore, Option.elim_some]
      omega

theorem founded_revisit {h : History} (hfounded : h.Founded) (direction : Recall) :
    (h.revisit direction).2.Founded := by
  show (h.step direction).elim 0 Nat.succ ≤ h.entries.length
  cases direction with
  | older =>
    rw [depth_step_older hfounded]
    exact Nat.min_le_right _ _
  | newer =>
    rw [depth_step_newer]
    exact (Nat.sub_le _ _).trans hfounded

/-- A line for which room is made takes the place of one, so there are never fewer lines. -/
theorem Founded.record {h : History} (hfounded : h.Founded) (hwithin : Within h) (line : String) :
    (h.record line).Founded := by
  have hlength := hwithin.length
  have hpositive := hwithin.positive
  show h.depth ≤ (h.record line).entries.length
  refine Nat.le_trans hfounded ?_
  rw [entries_record hwithin, List.rtake, List.length_drop, List.length_append,
    List.length_singleton]
  omega

/-- Some steps in the same direction. -/
def revisits (direction : Recall) : Nat → History → History
  | 0, h => h
  | n + 1, h => revisits direction n (h.revisit direction).2

theorem resetRecall_revisits (direction : Recall) (n : Nat) (h : History) :
    (revisits direction n h).resetRecall = h.resetRecall := by
  induction n generalizing h with
  | zero => rfl
  | succ n ih => exact ih _

theorem depth_revisits_newer (n : Nat) (h : History) :
    (revisits .newer n h).depth = h.depth - n := by
  induction n generalizing h with
  | zero => rfl
  | succ n ih =>
    have hstep : (h.revisit .newer).2.depth = h.depth - 1 := depth_step_newer h
    rw [revisits, ih, hstep]
    omega

theorem depth_revisits_older {h : History} (hfounded : h.Founded) (n : Nat) :
    (revisits .older n h).depth = min (h.depth + n) h.entries.length := by
  induction n generalizing h with
  | zero => exact (Nat.min_eq_left hfounded).symm
  | succ n ih =>
    have hstep : (h.revisit .older).2.depth = min (h.depth + 1) h.entries.length :=
      depth_step_older hfounded
    have hentries : (h.revisit .older).2.entries = h.entries := rfl
    rw [revisits, ih (founded_revisit hfounded .older), hstep, hentries]
    omega

/-! ## The line at a depth -/

/-- The lines to choose from, the one that is typed first, then from the latest one back. -/
def choices (h : History) : List String := "" :: h.entries.reverse

/-- **A recall is on the line that lies so many lines back.** -/
theorem choices_depth {h : History} (hfounded : h.Founded) :
    h.choices[h.depth]? = some h.recalledLine := by
  rw [Founded, depth] at hfounded
  rw [choices, depth, recalledLine]
  rcases hrecalled : h.recalled with - | n
  · rfl
  · rw [hrecalled, Option.elim_some] at hfounded
    dsimp only [Option.elim_some]
    have hback : h.entries.length - 1 - n < h.entries.length := by omega
    rw [List.getElem?_cons_succ, List.getElem?_reverse (by omega),
      List.getElem?_eq_getElem hback, Option.getD_some]

/-- Going back and forth again, by less than there and back, leads to a line. -/
theorem recalledLine_revisits {h : History} {back forth : Nat}
    (hforth : forth < min back h.entries.length) :
    h.entries.reverse[min back h.entries.length - forth - 1]?
      = some (revisits .newer forth (revisits .older back h.resetRecall)).recalledLine := by
  have hback : (revisits .older back h.resetRecall).depth = min (0 + back) h.entries.length :=
    depth_revisits_older (founded_of_recalled rfl) back
  have hreset := (resetRecall_revisits .newer forth (revisits .older back h.resetRecall)).trans
    (resetRecall_revisits .older back h.resetRecall)
  have hdepth := depth_revisits_newer forth (revisits .older back h.resetRecall)
  generalize revisits .newer forth (revisits .older back h.resetRecall) = moved at hreset hdepth ⊢
  have hentries : moved.entries = h.entries := by
    show moved.resetRecall.entries = h.resetRecall.resetRecall.entries
    rw [hreset]
  rw [hback, Nat.zero_add] at hdepth
  have hfounded : moved.Founded := by
    rw [Founded, hdepth, hentries]
    omega
  have hline := choices_depth hfounded
  have hsucc : moved.depth = min back h.entries.length - forth - 1 + 1 := by omega
  rwa [choices, hsucc, List.getElem?_cons_succ, hentries] at hline

/-- The position after one step, where a difference below zero is no result. -/
def stepStrictly (h : History) : Recall → Option (Option Nat)
  | .older =>
    match h.recalled with
    | none => some (if h.entries.isEmpty then none else some 0)
    | some n => some (if n + 1 < h.entries.length then some (n + 1) else some n)
  | .newer =>
    match h.recalled with
    | none => some none
    | some n => if n = 0 then some none else (n.psub 1).map some

/-- The line that is recalled, where a difference below zero and a place outside of the list are no
result. -/
def lineStrictly (h : History) : Option String :=
  match h.recalled with
  | none => some ""
  | some n =>
    (h.entries.length.psub 1).bind fun last =>
      (last.psub n).bind fun place => h.entries[place]?

theorem stepStrictly_eq (h : History) (direction : Recall) :
    h.stepStrictly direction = some (h.step direction) := by
  rw [stepStrictly.eq_def, step.eq_def]
  rcases direction <;> rcases h.recalled with - | - | n <;> rfl

/-- **Nothing that a recall computes is out of range.** -/
theorem lineStrictly_eq {h : History} (hfounded : h.Founded) :
    h.lineStrictly = some h.recalledLine := by
  rw [Founded, depth] at hfounded
  rw [lineStrictly, recalledLine]
  rcases hrecalled : h.recalled with - | n
  · rfl
  · rw [hrecalled, Option.elim_some] at hfounded
    have hback : h.entries.length - 1 - n < h.entries.length := by omega
    dsimp only
    rw [Nat.psub_eq_sub (by omega), Option.bind_some, Nat.psub_eq_sub (by omega), Option.bind_some,
      List.getElem?_eq_getElem hback, Option.getD_some]

/-! ## A pile of lines -/

/-- What can be done with a history between two lines that are read. -/
inductive Use where
  | record (line : String)
  | revisit (direction : Recall)
  | resetRecall
deriving DecidableEq, Repr

/-- The line that a use records. -/
def Use.line? : Use → Option String
  | .record line => some line
  | .revisit _ | .resetRecall => none

/-- One use: what it answers, which only a recall does, and the history after it. -/
def perform (h : History) : Use → Option String × History
  | .record line => (none, h.record line)
  | .revisit direction => (some (h.revisit direction).1, (h.revisit direction).2)
  | .resetRecall => (none, h.resetRecall)

/-- Uses one after another: their answers, and the history after the last. -/
def performAll (h : History) : List Use → List (Option String) × History
  | [] => ([], h)
  | use :: uses =>
    let rest := (h.perform use).2.performAll uses
    ((h.perform use).1 :: rest.1, rest.2)

/-- All lines that were recorded, oldest first, and how many one has gone back. -/
structure Pile where
  recorded : List String
  depth : Nat
deriving DecidableEq, Repr

namespace Pile

def empty : Pile := ⟨[], 0⟩

/-- The last lines, of which there is at least one if any was recorded. -/
def kept (capacity : Nat) (p : Pile) : List String := p.recorded.rtake (max capacity 1)

/-- Goes one line back, if there is one, or one line forward. -/
def move (capacity : Nat) (p : Pile) : Recall → Nat
  | .older => min (p.depth + 1) (p.kept capacity).length
  | .newer => p.depth - 1

/-- The line at the depth, counted from the latest one, and no text at the depth zero. -/
def line (capacity : Nat) (p : Pile) : Option String :=
  ("" :: (p.kept capacity).reverse)[p.depth]?

/-- **One use** of a pile. -/
def perform (capacity : Nat) (p : Pile) : Use → Option String × Pile
  | .record line => (none, { p with recorded := p.recorded ++ [line] })
  | .revisit direction =>
    let later := { p with depth := p.move capacity direction }
    (later.line capacity, later)
  | .resetRecall => (none, { p with depth := 0 })

def performAll (capacity : Nat) (p : Pile) : List Use → List (Option String) × Pile
  | [] => ([], p)
  | use :: uses =>
    let rest := (p.perform capacity use).2.performAll capacity uses
    ((p.perform capacity use).1 :: rest.1, rest.2)

/-- A history holds what is left of a pile, and is at its depth. -/
structure Shows (capacity : Nat) (p : Pile) (h : History) : Prop where
  bound : h.capacity = max capacity 1
  entries : h.entries = p.kept capacity
  depth : h.depth = p.depth
  founded : h.Founded

variable {capacity : Nat} {p : Pile} {h : History}

theorem shows_start (capacity : Nat) (logs : Option Logs) :
    empty.Shows capacity (start capacity logs) :=
  ⟨rfl, List.drop_nil.symm, rfl, founded_start capacity logs⟩

theorem Shows.within (hshows : p.Shows capacity h) : Within h := by
  refine ⟨?_, ?_⟩
  · rw [hshows.bound]
    exact Nat.le_max_right _ _
  · rw [hshows.bound, hshows.entries, kept, List.rtake, List.length_drop]
    omega

theorem Shows.record (hshows : p.Shows capacity h) (line : String) :
    { p with recorded := p.recorded ++ [line] : Pile }.Shows capacity (h.record line) := by
  refine ⟨hshows.bound, ?_, hshows.depth, hshows.founded.record hshows.within line⟩
  rw [entries_record hshows.within, hshows.bound, hshows.entries, kept, rtake_append_rtake]
  rfl

theorem Shows.revisit (hshows : p.Shows capacity h) (direction : Recall) :
    { p with depth := p.move capacity direction : Pile }.Shows capacity
      (h.revisit direction).2 := by
  refine ⟨hshows.bound, hshows.entries, ?_, founded_revisit hshows.founded direction⟩
  show (h.step direction).elim 0 Nat.succ = p.move capacity direction
  cases direction with
  | older => rw [depth_step_older hshows.founded, hshows.depth, hshows.entries, move]
  | newer => rw [depth_step_newer, hshows.depth, move]

theorem Shows.line (hshows : p.Shows capacity h) : p.line capacity = some h.recalledLine := by
  rw [Pile.line, ← hshows.entries, ← hshows.depth]
  exact choices_depth hshows.founded

/-- **One use** answers what the pile answers, and leaves the history on the pile. -/
theorem Shows.perform (hshows : p.Shows capacity h) (use : Use) :
    (h.perform use).1 = (p.perform capacity use).1 ∧
      (p.perform capacity use).2.Shows capacity (h.perform use).2 := by
  cases use with
  | record line => exact ⟨rfl, hshows.record line⟩
  | revisit direction =>
    have hlater := hshows.revisit direction
    exact ⟨hlater.line.symm, hlater⟩
  | resetRecall =>
    exact ⟨rfl, hshows.bound, hshows.entries, rfl, founded_of_recalled rfl⟩

/-- Any number of uses, by what one does. -/
theorem Shows.performAll (hshows : p.Shows capacity h) (uses : List Use) :
    (h.performAll uses).1 = (p.performAll capacity uses).1 ∧
      (p.performAll capacity uses).2.Shows capacity (h.performAll uses).2 := by
  induction uses generalizing h p with
  | nil => exact ⟨rfl, hshows⟩
  | cons use uses ih =>
    obtain ⟨hanswer, hlater⟩ := hshows.perform use
    obtain ⟨hanswers, hlast⟩ := ih hlater
    refine ⟨?_, hlast⟩
    rw [History.performAll, Pile.performAll]
    dsimp only
    rw [hanswer, hanswers]

theorem recorded_performAll (capacity : Nat) (p : Pile) (uses : List Use) :
    (p.performAll capacity uses).2.recorded = p.recorded ++ uses.filterMap Use.line? := by
  induction uses generalizing p with
  | nil => exact (List.append_nil _).symm
  | cons use uses ih =>
    rw [performAll]
    dsimp only
    rw [ih]
    cases use with
    | record line =>
      show p.recorded ++ [line] ++ uses.filterMap Use.line? = _
      rw [List.append_assoc]
      rfl
    | revisit direction => rfl
    | resetRecall => rfl

end Pile

/-- **A history is a bounded queue with a depth.** Over any uses of a new history, lines being
recorded also while others are recalled: every answer is that of the pile; the lines are the last
ones that were recorded; the depth is that of the pile and at most the number of lines; a line is
recalled if the depth is not zero; and a next recall computes nothing that is out of range. -/
theorem performAll_start (capacity : Nat) (uses : List Use) :
    let used := (start capacity none).performAll uses
    let pile := Pile.empty.performAll capacity uses
    used.1 = pile.1 ∧
      used.2.entries = (uses.filterMap Use.line?).rtake (max capacity 1) ∧
      used.2.depth = pile.2.depth ∧
      used.2.depth ≤ used.2.entries.length ∧
      (used.2.isRecalling = true ↔ 0 < used.2.depth) ∧
      ∀ direction,
        used.2.stepStrictly direction = some (used.2.step direction) ∧
          (used.2.revisit direction).2.lineStrictly = some (used.2.revisit direction).1 := by
  intro used pile
  obtain ⟨hanswers, hshows⟩ := (Pile.shows_start capacity none).performAll uses
  refine ⟨hanswers, ?_, hshows.depth, hshows.founded, isRecalling_iff _, fun direction => ⟨?_, ?_⟩⟩
  · rw [hshows.entries, Pile.kept, Pile.recorded_performAll]
    rfl
  · exact stepStrictly_eq _ direction
  · exact lineStrictly_eq (founded_revisit hshows.founded direction)

example :
    ((start 2 none).performAll
      [.record "a", .record "b", .revisit .older, .revisit .older, .record "c",
        .revisit .older, .revisit .newer, .revisit .newer]).1 =
      [none, none, some "b", some "a", none, some "b", some "c", some ""] := by
  decide

end History

end LineShell
