import LineShell.Line
import LineShell.Proofs.Text.White
/-!
The two scans of a line, taken piece by piece.

Comment marks and separators are looked for in the same way, so one notion serves both: a text is
free of a mark if the mark does not stand outside quotes in it (`Line.Free`). A scan passes such a
text unchanged and goes on behind it with the quote that is open there. A text behind which no quote
is open, if none was before, can be put anywhere (`Line.Quiet`).
-/

set_option autoImplicit false

namespace LineShell

/-! ## One character -/

namespace Quote

variable {quote : Quote} {c : Char}

theorem next_of_no_quote (opened : Option Quote) (h : ofChar? c = none) :
    next opened c = opened := by
  unfold next
  rw [h]

theorem next_opening (quote : Quote) : next none quote.char = some quote := by
  unfold next
  rw [ofChar?_char]

theorem next_closing (quote : Quote) : next (some quote) quote.char = none := by
  unfold next
  rw [ofChar?_char]
  exact if_pos rfl

/-- Inside a quote only the same quote counts. -/
theorem next_inside (h : c ≠ quote.char) : next (some quote) c = some quote := by
  unfold next
  cases hc : ofChar? c with
  | none => rfl
  | some other =>
    have hne : other ≠ quote := by
      rintro rfl
      exact h (ofChar?_eq_some_iff.1 hc)
    exact if_neg hne

end Quote

namespace Line

/-! ## Both scans -/

/-- A text in which a mark does not stand outside quotes. -/
def Free (mark : Char) (opened : Option Quote) : List Char → Prop
  | [] => True
  | c :: rest => ¬ (c = mark ∧ opened = none) ∧ Free mark (Quote.next opened c) rest

variable {mark : Char} {opened : Option Quote} {s t : List Char}

theorem free_append :
    Free mark opened (s ++ t) ↔ Free mark opened s ∧ Free mark (Quote.after opened s) t := by
  induction s generalizing opened with
  | nil => exact ⟨fun h => ⟨trivial, h⟩, fun h => h.2⟩
  | cons c s ih =>
    rw [List.cons_append, Free, Free, ih, Quote.after_cons, and_assoc]

theorem uncommented_append (h : Free commentMark opened s) (rest : List Char) :
    uncommented opened (s ++ rest) = s ++ uncommented (Quote.after opened s) rest := by
  induction s generalizing opened with
  | nil => rfl
  | cons c s ih =>
    rw [List.cons_append, uncommented, if_neg h.1, ih h.2, Quote.after_cons, List.cons_append]

theorem segments_append (h : Free separator opened s) (rest : List Char) :
    segments opened (s ++ rest) = (segments (Quote.after opened s) rest).modifyHead (s ++ ·) := by
  induction s generalizing opened with
  | nil =>
    rw [List.nil_append, Quote.after_nil]
    exact (congrFun List.modifyHead_id _).symm
  | cons c s ih =>
    rw [List.cons_append, segments, if_neg h.1, ih h.2, Quote.after_cons,
      List.modifyHead_modifyHead]
    rfl

/-- A separator outside quotes cuts the text in two. -/
theorem segments_joined (h : Quote.after opened s = none) (rest : List Char) :
    segments opened (s ++ separator :: rest) = segments opened s ++ segments none rest := by
  induction s generalizing opened with
  | nil =>
    have hcut : segments opened (separator :: rest) = [] :: segments none rest :=
      if_pos ⟨rfl, h⟩
    rw [List.nil_append, hcut]
    rfl
  | cons c s ih =>
    rw [Quote.after_cons] at h
    rw [List.cons_append, segments, segments]
    by_cases hcut : c = separator ∧ opened = none
    · have hnext : Quote.next opened c = none := by
        rw [hcut.1, hcut.2]
        rfl
      rw [hnext] at h
      rw [if_pos hcut, if_pos hcut, ih h, List.cons_append]
    · rw [if_neg hcut, if_neg hcut, ih h]
      obtain ⟨head, tail, hsegments⟩ := List.exists_cons_of_ne_nil (segments_ne_nil _ s)
      rw [hsegments]
      rfl

/-! ## Quiet texts -/

/-- A text without a mark outside quotes, in which every quote that opens closes. -/
structure Quiet (mark : Char) (text : List Char) : Prop where
  free : Free mark none text
  closed : Quote.after none text = none

theorem quiet_nil : Quiet mark [] := ⟨trivial, rfl⟩

theorem Quiet.append (hs : Quiet mark s) (ht : Quiet mark t) : Quiet mark (s ++ t) := by
  refine ⟨free_append.2 ⟨hs.free, ?_⟩, ?_⟩
  · rw [hs.closed]
    exact ht.free
  · rw [Quote.after_append, hs.closed, ht.closed]

/-- A text without quotes and without the mark. -/
theorem quiet_of_plain (h : ∀ c ∈ s, Quote.ofChar? c = none ∧ c ≠ mark) : Quiet mark s := by
  induction s with
  | nil => exact quiet_nil
  | cons c s ih =>
    obtain ⟨hquote, hmark⟩ := h c List.mem_cons_self
    have hnext : Quote.next none c = none := Quote.next_of_no_quote none hquote
    have hrest := ih fun d hd => h d (List.mem_cons_of_mem c hd)
    refine ⟨⟨fun hc => hmark hc.1, ?_⟩, ?_⟩
    · rw [hnext]
      exact hrest.free
    · rw [Quote.after_cons, hnext]
      exact hrest.closed

/-- Inside a quote that does not occur, nothing happens. -/
theorem free_inside {quote : Quote} (h : quote.char ∉ s) :
    Free mark (some quote) s ∧ Quote.after (some quote) s = some quote := by
  induction s with
  | nil => exact ⟨trivial, rfl⟩
  | cons c s ih =>
    have hnext : Quote.next (some quote) c = some quote := by
      refine Quote.next_inside ?_
      rintro rfl
      exact h List.mem_cons_self
    obtain ⟨hfree, hafter⟩ := ih fun hmem => h (List.mem_cons_of_mem c hmem)
    refine ⟨⟨fun hc => (nomatch hc.2), ?_⟩, ?_⟩
    · rw [hnext]
      exact hfree
    · rw [Quote.after_cons, hnext, hafter]

/-- **A phrase in quotes** hides every mark in it. -/
theorem quiet_quoted {quote : Quote} (hmark : Quote.ofChar? mark = none) (h : quote.char ∉ s) :
    Quiet mark (quote.char :: (s ++ [quote.char])) := by
  have hne : quote.char ≠ mark := by
    rintro rfl
    rw [Quote.ofChar?_char] at hmark
    cases hmark
  have hinside : Free mark (some quote) s ∧ Quote.after (some quote) s = some quote :=
    free_inside h
  obtain ⟨hfree, hafter⟩ := hinside
  have hopening := Quote.next_opening quote
  have hclosing := Quote.next_closing quote
  refine ⟨⟨fun hc => hne hc.1, ?_⟩, ?_⟩
  · rw [hopening, free_append, hafter]
    exact ⟨hfree, ⟨fun hc => (nomatch hc.2), trivial⟩⟩
  · rw [Quote.after_cons, hopening, Quote.after_append, hafter,
      Quote.after_cons, hclosing, Quote.after_nil]

end Line

end LineShell
