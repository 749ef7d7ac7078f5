import LineShell.Proofs.Line.Scanning
/-!
A line is cut at its separators, and nothing of it is lost.

The segments of a text are told by a relation (`Line.Pieces`): a text that is free of separators is
one piece, and a separator behind a piece without an open quote starts the next one. All that is
said of the commands of a line is read off this relation. They are the segments of the line without
the separator that it may end with (`Line.commands_eq`), so put together again they give the line
back, and their number is that of its separators outside quotes (`commandsOf_cut_at_separators`).
-/

set_option autoImplicit false

namespace LineShell

namespace Line

variable {opened : Option Quote} {text : List Char} {pieces : List (List Char)}

/-! ## Pieces of a text -/

/-- **A text and its pieces.** What separates two pieces stands outside quotes, and so every piece
but the first one is read from where no quote is open. -/
inductive Pieces : Option Quote → List Char → List (List Char) → Prop where
  | last {opened : Option Quote} {text : List Char} (hfree : Free separator opened text) :
      Pieces opened text [text]
  | cut {opened : Option Quote} {piece rest : List Char} {pieces : List (List Char)}
      (hfree : Free separator opened piece) (hclosed : Quote.after opened piece = none)
      (h : Pieces none rest pieces) : Pieces opened (piece ++ separator :: rest) (piece :: pieces)

/-- **The segments of a text are its pieces.** -/
theorem pieces_segments (opened : Option Quote) (text : List Char) :
    Pieces opened text (segments opened text) := by
  induction text generalizing opened with
  | nil => exact .last trivial
  | cons c text ih =>
    rw [segments]
    by_cases hcut : c = separator ∧ opened = none
    · rw [if_pos hcut]
      obtain ⟨rfl, rfl⟩ := hcut
      exact @Pieces.cut none [] _ _ trivial rfl (ih none)
    · -- The character belongs to the first piece.
      rw [if_neg hcut]
      have hrest := ih (Quote.next opened c)
      generalize segments (Quote.next opened c) text = found at hrest
      cases hrest with
      | last hfree => exact .last ⟨hcut, hfree⟩
      | cut hfree hclosed h => exact @Pieces.cut opened (c :: _) _ _ ⟨hcut, hfree⟩ hclosed h

theorem Pieces.ne_nil (h : Pieces opened text pieces) : pieces ≠ [] := by
  cases h with
  | last => exact List.cons_ne_nil _ _
  | cut => exact List.cons_ne_nil _ _

/-- **Nothing is lost:** with separators in between the pieces are the text. -/
theorem Pieces.intercalate_eq (h : Pieces opened text pieces) :
    [separator].intercalate pieces = text := by
  induction h with
  | last => exact List.intercalate_singleton
  | cut _ _ h ih =>
    rw [List.intercalate_cons_of_ne_nil h.ne_nil, ih, List.append_assoc]
    rfl

/-- No piece holds a separator outside quotes. -/
theorem Pieces.free (h : Pieces opened text pieces) (hopened : opened = none) :
    ∀ piece ∈ pieces, Free separator none piece := by
  induction h with
  | last hfree =>
    subst hopened
    intro piece hpiece
    rw [List.mem_singleton.1 hpiece]
    exact hfree
  | cut hfree _ _ ih =>
    subst hopened
    intro piece hpiece
    rcases List.mem_cons.1 hpiece with rfl | hpiece
    · exact hfree
    · exact ih rfl piece hpiece

/-- Behind every piece but the last one all quotes are closed. -/
theorem Pieces.closed (h : Pieces opened text pieces) (hopened : opened = none) :
    ∀ piece ∈ pieces.dropLast, Quote.after none piece = none := by
  induction h with
  | last =>
    intro piece hpiece
    cases hpiece
  | cut _ hclosed h ih =>
    subst hopened
    intro piece hpiece
    rw [List.dropLast_cons_of_ne_nil h.ne_nil] at hpiece
    rcases List.mem_cons.1 hpiece with rfl | hpiece
    · exact hclosed
    · exact ih rfl piece hpiece

/-! ## Counting separators -/

/-- How many separators of a text stand outside quotes. -/
def cuts (opened : Option Quote) : List Char → Nat
  | [] => 0
  | c :: rest =>
    (if c = separator ∧ opened = none then 1 else 0) + cuts (Quote.next opened c) rest

theorem cuts_append (opened : Option Quote) (s t : List Char) :
    cuts opened (s ++ t) = cuts opened s + cuts (Quote.after opened s) t := by
  induction s generalizing opened with
  | nil => rw [List.nil_append, cuts, Quote.after_nil, Nat.zero_add]
  | cons c s ih => rw [List.cons_append, cuts, cuts, ih, Quote.after_cons, Nat.add_assoc]

theorem cuts_of_free (h : Free separator opened text) : cuts opened text = 0 := by
  induction text generalizing opened with
  | nil => rfl
  | cons c text ih => rw [cuts, if_neg h.1, ih h.2]

theorem cuts_separator (rest : List Char) : cuts none (separator :: rest) = cuts none rest + 1 := by
  have hnext : Quote.next none separator = none := rfl
  rw [cuts, if_pos ⟨rfl, rfl⟩, hnext, Nat.add_comm]

/-- There is one piece more than there are separators between them. -/
theorem Pieces.length_eq (h : Pieces opened text pieces) :
    pieces.length = cuts opened text + 1 := by
  induction h with
  | last hfree => rw [cuts_of_free hfree, List.length_singleton]
  | cut hfree hclosed _ ih =>
    rw [cuts_append, cuts_of_free hfree, hclosed, cuts_separator, List.length_cons, ih,
      Nat.zero_add]

/-! ## Empty pieces -/

/-- A text ends in a separator outside quotes. -/
def EndsCut (text : List Char) : Prop :=
  text.getLast? = some separator ∧ Quote.after none text.dropLast = none

instance (text : List Char) : Decidable (EndsCut text) := inferInstanceAs (Decidable (_ ∧ _))

theorem endsCut_iff : EndsCut text ↔
    ∃ front, text = front ++ [separator] ∧ Quote.after none front = none := by
  unfold EndsCut
  constructor
  · rintro ⟨hlast, hclosed⟩
    obtain ⟨front, rfl⟩ := List.getLast?_eq_some_iff.1 hlast
    rw [List.dropLast_concat] at hclosed
    exact ⟨front, rfl, hclosed⟩
  · rintro ⟨front, rfl, hclosed⟩
    rw [List.getLast?_concat, List.dropLast_concat]
    exact ⟨rfl, hclosed⟩

/-- **The last piece is empty** only in an empty text and behind a separator. -/
theorem Pieces.of_empty_end (h : Pieces opened text pieces) (hlast : pieces.getLast? = some []) :
    text = [] ∨ ∃ front, text = front ++ [separator] ∧ Quote.after opened front = none := by
  induction h with
  | last => exact .inl (Option.some.inj hlast)
  | @cut opened piece rest pieces _ hclosed h ih =>
    rw [List.getLast?_cons_of_ne_nil h.ne_nil] at hlast
    rcases ih hlast with rfl | ⟨front, rfl, hfront⟩
    · exact .inr ⟨piece, rfl, hclosed⟩
    · refine .inr ⟨piece ++ separator :: front, ?_, ?_⟩
      · rw [List.append_assoc]
        rfl
      · rw [Quote.after_append, hclosed]
        exact hfront

theorem eq_nil_iff_of_free (hfree : Free separator none text) :
    text = [] ↔ ∀ c ∈ text, c = separator := by
  cases text with
  | nil => simp
  | cons c text =>
    have hfirst : c ≠ separator := fun hc => hfree.1 ⟨hc, rfl⟩
    simp [hfirst]

/-- **All pieces are empty** in a text of separators, and in no other one. -/
theorem Pieces.all_empty_iff (h : Pieces opened text pieces) (hopened : opened = none) :
    (∀ piece ∈ pieces, piece = []) ↔ ∀ c ∈ text, c = separator := by
  induction h with
  | last hfree =>
    subst hopened
    rw [List.forall_mem_singleton, eq_nil_iff_of_free hfree]
  | cut hfree _ _ ih =>
    subst hopened
    rw [List.forall_mem_cons, ih rfl, eq_nil_iff_of_free hfree, List.forall_mem_append,
      List.forall_mem_cons]
    simp

/-! ## The commands -/

/-- A text without the separator that it ends with. -/
def body (text : List Char) : List Char := if EndsCut text then text.dropLast else text

/-- A text that ends in a separator is its body and that separator. -/
theorem body_cases (text : List Char) :
    ¬ EndsCut text ∧ body text = text ∨ EndsCut text ∧ ∃ front, text = front ++ [separator] ∧
      Quote.after none front = none ∧ body text = front := by
  by_cases hends : EndsCut text
  · obtain ⟨front, rfl, hclosed⟩ := endsCut_iff.1 hends
    refine .inr ⟨hends, front, rfl, hclosed, ?_⟩
    rw [body, if_pos hends, List.dropLast_concat]
  · exact .inl ⟨hends, if_neg hends⟩

theorem cuts_body (text : List Char) :
    cuts none text = cuts none (body text) + if EndsCut text then 1 else 0 := by
  rcases body_cases text with ⟨hends, hbody⟩ | ⟨hends, front, htext, hclosed, hbody⟩
  · rw [hbody, if_neg hends, Nat.add_zero]
  · have hlast : cuts none [separator] = 1 := rfl
    rw [hbody, if_pos hends, htext, cuts_append, hclosed, hlast]

/-- What is left of the segments are those of the body. -/
theorem dropEmptyEnd_segments_body (hne : text ≠ []) :
    dropEmptyEnd (segments none text) = segments none (body text) := by
  rcases body_cases text with ⟨hends, hbody⟩ | ⟨-, front, htext, hclosed, hbody⟩
  · rw [hbody, dropEmptyEnd, if_neg]
    intro hlast
    rcases (pieces_segments none text).of_empty_end hlast with hnil | hcut
    · exact hne hnil
    · exact hends (endsCut_iff.2 hcut)
  · have hnil : segments none [] = [[]] := rfl
    rw [hbody, htext, segments_joined hclosed, hnil, dropEmptyEnd, List.getLast?_concat,
      if_pos rfl, List.dropLast_concat]

theorem separators_body (text : List Char) :
    (∀ c ∈ body text, c = separator) ↔ ∀ c ∈ text, c = separator := by
  rcases body_cases text with ⟨-, hbody⟩ | ⟨-, front, htext, -, hbody⟩
  · rw [hbody]
  · rw [hbody, htext, List.forall_mem_append, List.forall_mem_singleton, and_iff_left rfl]

theorem all_empty_segments_body (text : List Char) :
    (segments none (body text)).all List.isEmpty = true ↔ ∀ c ∈ text, c = separator := by
  rw [← separators_body, ← (pieces_segments none (body text)).all_empty_iff rfl]
  simp

theorem commands_of_separators (h : ∀ c ∈ text, c = separator) : commands text = [] := by
  by_cases hne : text = []
  · rw [hne]
    rfl
  · unfold commands
    rw [dropEmptyEnd_segments_body hne]
    exact if_pos ((all_empty_segments_body text).2 h)

/-- **The commands of a text** are the segments of its body, unless it holds nothing but
separators. -/
theorem commands_eq (h : ¬ ∀ c ∈ text, c = separator) :
    commands text = segments none (body text) := by
  have hne : text ≠ [] := by
    rintro rfl
    exact h (List.forall_mem_nil _)
  unfold commands
  rw [dropEmptyEnd_segments_body hne]
  exact if_neg fun hall => h ((all_empty_segments_body text).1 hall)

theorem commands_eq_nil_iff (text : List Char) :
    commands text = [] ↔ ∀ c ∈ text, c = separator := by
  by_cases hseparators : ∀ c ∈ text, c = separator
  · exact iff_of_true (commands_of_separators hseparators) hseparators
  · rw [commands_eq hseparators]
    exact iff_of_false (segments_ne_nil none _) hseparators

/-- Where there are commands, they are the pieces of the body. -/
theorem pieces_commands (h : commands text ≠ []) : Pieces none (body text) (commands text) := by
  have hseparators : ¬ ∀ c ∈ text, c = separator := fun hall =>
    h ((commands_eq_nil_iff text).2 hall)
  rw [commands_eq hseparators]
  exact pieces_segments none (body text)

end Line

/-! ## The commands of a line -/

theorem intercalate_commandsOf (line : String) : ";".intercalate (commandsOf line)
    = String.ofList ([Line.separator].intercalate (Line.commands line.toList)) := by
  have htoList : String.toList ∘ String.ofList = id := funext fun _ => String.toList_ofList
  have hseparator : ";".toList = [Line.separator] := rfl
  rw [← String.toList_inj, String.toList_intercalate, commandsOf, List.map_map, htoList,
    List.map_id, hseparator, String.toList_ofList]

/-- **Splitting loses nothing, and cuts at separators outside quotes only.** Only a line of
separators has no command. Every other line is its commands with separators in between, perhaps with
one more at the end. In no command a separator stands outside quotes, and only in the last one a
quote may be left open. So the number of commands is that of the separators outside quotes, and one
more if the line does not end in one. -/
theorem commandsOf_cut_at_separators (line : String) :
    (commandsOf line = [] ↔ ∀ c ∈ line.toList, c = Line.separator) ∧
    (commandsOf line ≠ [] →
      ¬ Line.EndsCut line.toList ∧ ";".intercalate (commandsOf line) = line ∨
      ∃ front, line = front ++ ";" ∧ Quote.after none front.toList = none ∧
        ";".intercalate (commandsOf line) = front) ∧
    (∀ command ∈ commandsOf line, Line.Free Line.separator none command.toList) ∧
    (∀ command ∈ (commandsOf line).dropLast, Quote.after none command.toList = none) ∧
    (line = "" ∨ (∃ c ∈ line.toList, c ≠ Line.separator) → (commandsOf line).length =
      Line.cuts none line.toList + if line = "" ∨ Line.EndsCut line.toList then 0 else 1) := by
  have hnil : commandsOf line = [] ↔ ∀ c ∈ line.toList, c = Line.separator := by
    rw [← Line.commands_eq_nil_iff, commandsOf, List.map_eq_nil_iff]
  by_cases hempty : commandsOf line = []
  · have hseparators := hnil.1 hempty
    refine ⟨hnil, fun hne => absurd hempty hne, ?_, ?_, ?_⟩
    · rw [hempty]
      exact List.forall_mem_nil _
    · rw [hempty]
      exact List.forall_mem_nil _
    · rintro (rfl | ⟨c, hc, hother⟩)
      · rfl
      · exact absurd (hseparators c hc) hother
  have hpieces : Line.Pieces none (Line.body line.toList) (Line.commands line.toList) :=
    Line.pieces_commands fun h => hempty (List.map_eq_nil_iff.2 h)
  have hjoined : ";".intercalate (commandsOf line) = String.ofList (Line.body line.toList) := by
    rw [intercalate_commandsOf, hpieces.intercalate_eq]
  refine ⟨hnil, fun _ => ?_, ?_, ?_, fun _ => ?_⟩
  · rcases Line.body_cases line.toList with ⟨hends, hbody⟩ | ⟨-, front, htext, hclosed, hbody⟩
    · refine .inl ⟨hends, ?_⟩
      rw [hjoined, hbody, String.ofList_toList]
    · refine .inr ⟨String.ofList front, ?_, ?_, ?_⟩
      · rw [← String.toList_inj, String.toList_append, String.toList_ofList]
        exact htext
      · rwa [String.toList_ofList]
      · rw [hjoined, hbody]
  · rw [commandsOf, List.forall_mem_map]
    simp only [String.toList_ofList]
    exact hpieces.free rfl
  · rw [commandsOf, ← List.map_dropLast, List.forall_mem_map]
    simp only [String.toList_ofList]
    exact hpieces.closed rfl
  · have hne : line ≠ "" := by
      rintro rfl
      exact hempty rfl
    have hlength := hpieces.length_eq
    have hcuts := Line.cuts_body line.toList
    rw [commandsOf, List.length_map]
    simp only [hne, false_or]
    split_ifs at hcuts ⊢ <;> omega

end LineShell
