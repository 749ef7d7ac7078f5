import LineShell.Text.White
import Mathlib.Data.List.TakeWhile
/-!
What trimming leaves, and where words end.

A trimmed text neither starts nor ends with white space, and trimming it again changes nothing. The
words of two texts with white space between them are those of the one and then those of the other
(`words_append_gap`).
-/

set_option autoImplicit false

namespace LineShell.Text

/-- A text of white space. -/
def White (text : List Char) : Prop := ∀ c ∈ text, isWhite c

instance (text : List Char) : Decidable (White text) := List.decidableBAll (isWhite · = true) text

/-- A text that neither starts nor ends with white space. -/
structure Trimmed (text : List Char) : Prop where
  first : ∀ c, text.head? = some c → isWhite c = false
  last : ∀ c, text.getLast? = some c → isWhite c = false

theorem white_nil : White [] := fun _ h => nomatch h

theorem dropWhile_sublist (text : List Char) : (trimStart text).Sublist text :=
  List.dropWhile_sublist _

theorem trimEnd_sublist (text : List Char) : (trimEnd text).Sublist text := by
  have h := (List.dropWhile_sublist (p := isWhite) (l := text.reverse)).reverse
  rwa [List.reverse_reverse] at h

theorem trim_sublist (text : List Char) : (trim text).Sublist text :=
  (trimEnd_sublist _).trans (dropWhile_sublist _)

theorem trimStart_of_first {text : List Char} (h : ∀ c, text.head? = some c → isWhite c = false) :
    trimStart text = text := by
  cases text with
  | nil => rfl
  | cons c rest => exact List.dropWhile_cons_of_neg (by rw [h c rfl]; exact Bool.false_ne_true)

theorem trimEnd_of_last {text : List Char} (h : ∀ c, text.getLast? = some c → isWhite c = false) :
    trimEnd text = text := by
  have hrev : trimStart text.reverse = text.reverse :=
    trimStart_of_first fun c hc => h c (by rwa [List.head?_reverse] at hc)
  rw [trimEnd, show text.reverse.dropWhile isWhite = text.reverse from hrev, List.reverse_reverse]

theorem trim_of_trimmed {text : List Char} (h : Trimmed text) : trim text = text := by
  rw [trim, trimStart_of_first h.first, trimEnd_of_last h.last]

theorem first_trimStart (text : List Char) (c : Char) (h : (trimStart text).head? = some c) :
    isWhite c = false := by
  have hnot := List.head?_dropWhile_not isWhite text
  rw [show text.dropWhile isWhite = trimStart text from rfl, h] at hnot
  exact hnot

theorem last_trimEnd (text : List Char) (c : Char) (h : (trimEnd text).getLast? = some c) :
    isWhite c = false := by
  rw [trimEnd, List.getLast?_reverse] at h
  exact first_trimStart text.reverse c h

/-- What is cut off at the end does not touch the start. -/
theorem trimEnd_prefix (text : List Char) : trimEnd text <+: text := by
  have h := List.dropWhile_suffix (l := text.reverse) isWhite
  rw [← List.reverse_prefix, List.reverse_reverse] at h
  exact h

theorem trimmed_trim (text : List Char) : Trimmed (trim text) := by
  refine ⟨fun c hc => ?_, fun c hc => last_trimEnd _ c hc⟩
  obtain ⟨rest, hrest⟩ := trimEnd_prefix (trimStart text)
  refine first_trimStart text c ?_
  rw [← hrest, List.head?_append, show trimEnd (trimStart text) = trim text from rfl, hc]
  rfl

theorem trimStart_of_white {text : List Char} (h : White text) (rest : List Char) :
    trimStart (text ++ rest) = trimStart rest := by
  induction text with
  | nil => rfl
  | cons c text ih =>
    have hc : isWhite c := h c List.mem_cons_self
    rw [List.cons_append, trimStart, List.dropWhile_cons_of_pos hc]
    exact ih fun d hd => h d (List.mem_cons_of_mem c hd)

theorem trimEnd_of_white {text : List Char} (h : White text) (front : List Char) :
    trimEnd (front ++ text) = trimEnd front := by
  have hrev : White text.reverse := fun c hc => h c (List.mem_reverse.1 hc)
  have htrim := trimStart_of_white hrev front.reverse
  rw [trimStart, trimStart] at htrim
  rw [trimEnd, List.reverse_append, htrim, trimEnd]

/-- **Trimming takes off white space at both ends and nothing else.** -/
theorem trim_white_append {front text back : List Char} (hfront : White front)
    (htext : Trimmed text) (hback : White back) : trim (front ++ text ++ back) = text := by
  cases text with
  | nil =>
    have hall : White (front ++ [] ++ back) := by
      intro c hc
      rcases List.mem_append.1 hc with hc | hc
      · exact hfront c (by rwa [List.append_nil] at hc)
      · exact hback c hc
    have hstart := trimStart_of_white hall []
    rw [List.append_nil, trimStart_nil] at hstart
    rw [trim, hstart, trimEnd_nil]
  | cons c text =>
    have hstart : trimStart (c :: text ++ back) = c :: text ++ back :=
      trimStart_of_first fun d hd => htext.first d hd
    rw [trim, List.append_assoc, trimStart_of_white hfront, hstart, trimEnd_of_white hback,
      trimEnd_of_last htext.last]

/-- What is cut off at the end stands behind the last character that is not white. -/
theorem trimEnd_append_cons (text rest : List Char) {c : Char} (h : isWhite c = false) :
    trimEnd (text ++ c :: rest) = text ++ c :: trimEnd rest := by
  have hcons : ∀ more, List.dropWhile isWhite (c :: more) = c :: more :=
    fun more => List.dropWhile_cons_of_neg (by rw [h]; exact Bool.false_ne_true)
  have hsplit : (text ++ c :: rest).reverse = rest.reverse ++ c :: text.reverse := by
    rw [List.reverse_append, List.reverse_cons, List.append_assoc, List.singleton_append]
  rw [trimEnd, trimEnd, hsplit, List.dropWhile_append]
  by_cases hempty : (List.dropWhile isWhite rest.reverse).isEmpty = true
  · rw [if_pos hempty, hcons, List.isEmpty_iff.1 hempty, List.reverse_cons, List.reverse_reverse,
      List.reverse_nil]
  · rw [if_neg hempty, List.reverse_append, List.reverse_cons, List.reverse_reverse,
      List.append_assoc, List.singleton_append]

/-- White space at the end is trimmed away, whatever stands in front of it. -/
theorem trim_append_white {back : List Char} (h : White back) (text : List Char) :
    trim (text ++ back) = trim text := by
  have hback : trimStart back = [] := by
    simpa using trimStart_of_white h []
  simp only [trim, trimStart, List.dropWhile_append]
  split
  · next hempty => rw [List.isEmpty_iff.1 hempty, ← trimStart, hback]
  · exact trimEnd_of_white h _

/-- What is cut off at the start is white space. -/
theorem exists_append_trimStart (text : List Char) :
    ∃ front, White front ∧ front ++ trimStart text = text :=
  ⟨text.takeWhile isWhite, fun _ hc => List.mem_takeWhile_imp hc,
    List.takeWhile_append_dropWhile⟩

/-- What is cut off at the start stands in front of every character that is not white. -/
theorem trimStart_append_cons (text rest : List Char) {c : Char} (h : isWhite c = false) :
    trimStart (text ++ c :: rest) = trimStart text ++ c :: rest := by
  have hcons : List.dropWhile isWhite (c :: rest) = c :: rest :=
    List.dropWhile_cons_of_neg (by rw [h]; exact Bool.false_ne_true)
  rw [trimStart, trimStart, List.dropWhile_append]
  by_cases hempty : (List.dropWhile isWhite text).isEmpty = true
  · rw [if_pos hempty, hcons, List.isEmpty_iff.1 hempty, List.nil_append]
  · rw [if_neg hempty]

/-- What is cut off at the end is white space. -/
theorem exists_trimEnd_append (text : List Char) :
    ∃ back, White back ∧ trimEnd text ++ back = text := by
  refine ⟨(text.reverse.takeWhile isWhite).reverse, fun c hc => ?_, ?_⟩
  · exact List.mem_takeWhile_imp (List.mem_reverse.1 hc)
  · rw [trimEnd, ← List.reverse_append, List.takeWhile_append_dropWhile, List.reverse_reverse]

theorem trim_trimEnd (text : List Char) : trim (trimEnd text) = trim text := by
  obtain ⟨back, hback, hsplit⟩ := exists_trimEnd_append text
  rw [← trim_append_white hback (trimEnd text), hsplit]

/-- What is left is a piece of the text. -/
theorem trim_infix (text : List Char) : trim text <:+: text := by
  have hstart : trimStart text <:+ text := List.dropWhile_suffix isWhite
  have hend : trim text <+: trimStart text := trimEnd_prefix (trimStart text)
  exact hend.isInfix.trans hstart.isInfix

/-- In front of a character that is not white only white space at the start is trimmed away. -/
theorem trim_append_cons {front text : List Char} {c : Char} (hfront : White front)
    (htext : ∀ d, text.head? = some d → isWhite d = false) (hc : isWhite c = false)
    (rest : List Char) : trim (front ++ (text ++ c :: rest)) = text ++ c :: trimEnd rest := by
  have hfirst : ∀ d, (text ++ c :: rest).head? = some d → isWhite d = false := by
    cases text with
    | nil => simp [hc]
    | cons e text => simpa using htext
  rw [trim, trimStart_of_white hfront, trimStart_of_first hfirst, trimEnd_append_cons _ _ hc]

/-! ## Solid texts -/

/-- A text that starts and ends with a character that is not white. -/
structure Solid (text : List Char) : Prop extends Trimmed text where
  nonempty : text ≠ []

theorem Solid.append {s t : List Char} (hs : Solid s) (m : List Char) (ht : Solid t) :
    Solid (s ++ m ++ t) := by
  obtain ⟨c, s, rfl⟩ := List.exists_cons_of_ne_nil hs.nonempty
  refine ⟨⟨fun d hd => hs.first d hd, fun d hd => ht.last d ?_⟩, List.cons_ne_nil _ _⟩
  rw [List.getLast?_append] at hd
  cases hlast : t.getLast? with
  | none => exact absurd (List.getLast?_eq_none_iff.1 hlast) ht.nonempty
  | some e => rwa [hlast, Option.some_or] at hd

/-! ## Words -/

theorem words_append_white {c : Char} (h : isWhite c) (s t : List Char) :
    words (s ++ c :: t) = words s ++ words t := by
  rw [words, words, words, List.splitOnP_append_cons s t h, List.filter_append]

theorem words_white_append {white : List Char} (h : White white) (text : List Char) :
    words (white ++ text) = words text := by
  induction white with
  | nil => rfl
  | cons c white ih =>
    rw [List.cons_append, words_cons_white (h c List.mem_cons_self)]
    exact ih fun d hd => h d (List.mem_cons_of_mem c hd)

/-- **Words end at white space.** -/
theorem words_append_gap {gap : List Char} (h : White gap) (hne : gap ≠ []) (s t : List Char) :
    words (s ++ gap ++ t) = words s ++ words t := by
  obtain ⟨c, gap, rfl⟩ := List.exists_cons_of_ne_nil hne
  rw [List.append_assoc, List.cons_append, words_append_white (h c List.mem_cons_self),
    words_white_append fun d hd => h d (List.mem_cons_of_mem c hd)]

theorem words_append_of_white {white : List Char} (h : White white) (text : List Char) :
    words (text ++ white) = words text := by
  by_cases hne : white = []
  · rw [hne, List.append_nil]
  · have hgap := words_append_gap h hne text []
    rwa [List.append_nil, words_nil, List.append_nil] at hgap

/-- A text without white space is one word. -/
theorem words_of_dark {text : List Char} (hne : text ≠ []) (h : ∀ c ∈ text, isWhite c = false) :
    words text = [text] := by
  rw [words, List.splitOnP_eq_singleton h]
  exact List.filter_cons_of_pos (by simpa using hne)

end LineShell.Text
