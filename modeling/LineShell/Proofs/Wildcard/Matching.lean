import LineShell.Wildcard
import Mathlib.Data.List.Infix
import Mathlib.Data.List.Forall2
import Mathlib.Tactic.Common
/-!
What a pattern matches.

A pattern covers a text that can be cut into pieces, one for each of its characters in order, such
that every piece fits its character (`Wildcard.Covers`). There are many ways to cut a text, and the
matcher tries none of them twice: it keeps one answer for each end of the text. The invariant is
that these are the right answers (`answers_cons`), for the empty pattern first and then for a
pattern with one more character in front. So the matcher says yes exactly to the texts that are
covered (`matchesAll_iff`).
-/

set_option autoImplicit false

namespace LineShell.Wildcard

/-! ## Cutting a text -/

/-- **What a character of a pattern stands for:** `*` for any run of characters without a line feed,
`?` for one character that is no line feed, and every other one for itself. -/
def Fits (c : Char) (piece : List Char) : Prop :=
  if c = '*' then '\n' ∉ piece
  else if c = '?' then ∃ d, d ≠ '\n' ∧ piece = [d]
  else piece = [c]

/-- **A pattern covers a text** that can be cut into pieces that fit its characters, in order. -/
def Covers (pattern text : List Char) : Prop :=
  ∃ pieces, List.Forall₂ Fits pattern pieces ∧ pieces.flatten = text

section

variable {c d : Char} {piece pattern text rest : List Char}

theorem fits_run : Fits '*' piece ↔ '\n' ∉ piece := by simp [Fits]

theorem fits_one : Fits '?' piece ↔ ∃ d, d ≠ '\n' ∧ piece = [d] := by simp [Fits]

theorem fits_exactly (hrun : c ≠ '*') (hone : c ≠ '?') : Fits c piece ↔ piece = [c] := by
  simp [Fits, hrun, hone]

theorem covers_nil : Covers [] text ↔ text = [] := by
  constructor
  · rintro ⟨pieces, hfits, rfl⟩
    rw [List.forall₂_nil_left_iff.1 hfits]
    rfl
  · rintro rfl
    exact ⟨[], .nil, rfl⟩

/-- The first piece fits the first character, and the rest covers the rest. -/
theorem covers_cons : Covers (c :: pattern) text ↔
    ∃ piece rest, Fits c piece ∧ Covers pattern rest ∧ piece ++ rest = text := by
  constructor
  · rintro ⟨pieces, hfits, rfl⟩
    obtain ⟨piece, others, hpiece, hothers, rfl⟩ := List.forall₂_cons_left_iff.1 hfits
    exact ⟨piece, others.flatten, hpiece, ⟨others, hothers, rfl⟩, rfl⟩
  · rintro ⟨piece, rest, hpiece, ⟨others, hothers, rfl⟩, rfl⟩
    exact ⟨piece :: others, .cons hpiece hothers, rfl⟩

/-- **A run** takes nothing, or the first character and then what a run takes of the rest. -/
theorem covers_run : Covers ('*' :: pattern) (d :: text) ↔
    Covers pattern (d :: text) ∨ d ≠ '\n' ∧ Covers ('*' :: pattern) text := by
  simp only [covers_cons, fits_run]
  constructor
  · rintro ⟨piece, rest, hpiece, hrest, htext⟩
    cases piece with
    | nil => exact .inl (htext ▸ hrest)
    | cons e piece =>
      obtain ⟨rfl, rfl⟩ := List.cons.inj htext
      obtain ⟨hfirst, hpiece⟩ := not_or.1 (mt List.mem_cons.2 hpiece)
      exact .inr ⟨Ne.symm hfirst, piece, rest, hpiece, hrest, rfl⟩
  · rintro (h | ⟨hd, piece, rest, hpiece, hrest, rfl⟩)
    · exact ⟨[], d :: text, List.not_mem_nil, h, rfl⟩
    · refine ⟨d :: piece, rest, ?_, hrest, rfl⟩
      simp [hpiece, Ne.symm hd]

theorem covers_one : Covers ('?' :: pattern) (d :: text) ↔ d ≠ '\n' ∧ Covers pattern text := by
  simp only [covers_cons, fits_one]
  constructor
  · rintro ⟨piece, rest, ⟨e, he, rfl⟩, hrest, htext⟩
    obtain ⟨rfl, rfl⟩ := List.cons.inj htext
    exact ⟨he, hrest⟩
  · rintro ⟨hd, h⟩
    exact ⟨[d], text, ⟨d, hd, rfl⟩, h, rfl⟩

theorem covers_exactly (hrun : c ≠ '*') (hone : c ≠ '?') :
    Covers (c :: pattern) (d :: text) ↔ d = c ∧ Covers pattern text := by
  simp only [covers_cons, fits_exactly hrun hone]
  constructor
  · rintro ⟨piece, rest, rfl, hrest, htext⟩
    obtain ⟨rfl, rfl⟩ := List.cons.inj htext
    exact ⟨rfl, hrest⟩
  · rintro ⟨rfl, h⟩
    exact ⟨[d], text, rfl, h, rfl⟩

/-- Only a run takes nothing. -/
theorem covers_cons_nil : Covers (c :: pattern) [] ↔ c = '*' ∧ Covers pattern [] := by
  rw [covers_cons]
  constructor
  · rintro ⟨piece, rest, hpiece, hrest, hnil⟩
    obtain ⟨rfl, rfl⟩ := List.append_eq_nil_iff.1 hnil
    refine ⟨by_contra fun hrun => ?_, hrest⟩
    by_cases hone : c = '?'
    · subst hone
      obtain ⟨e, -, he⟩ := fits_one.1 hpiece
      cases he
    · cases (fits_exactly hrun hone).1 hpiece
  · rintro ⟨rfl, h⟩
    exact ⟨[], [], fits_run.2 List.not_mem_nil, h, rfl⟩

end

/-! ## Answers for all ends of a text -/

/-- **The right answers:** one for each end of a text, the text itself first. -/
def Answers (pattern text : List Char) (answers : List Bool) : Prop :=
  List.Forall₂ (fun answer rest => answer = true ↔ Covers pattern rest) answers text.tails

variable {pattern text : List Char} {answers later : List Bool}

/-- The first answer is the one for the whole text. -/
theorem Answers.headD (h : Answers pattern text answers) :
    answers.headD false = true ↔ Covers pattern text := by
  cases text with
  | nil =>
    cases h with
    | cons hhere _ => exact hhere
  | cons d text =>
    cases h with
    | cons hhere _ => exact hhere

theorem answers_empty (text : List Char) : Answers [] text (answersEmpty text) := by
  induction text with
  | nil => exact .cons (by simp [covers_nil]) .nil
  | cons d text ih => exact .cons (by simp [covers_nil]) ih

/-- **One more character in front of a pattern.** The answers go from the right ones to the right
ones. -/
theorem answers_cons (c : Char) (h : Answers pattern text answers) :
    Answers (c :: pattern) text (answersCons (Element.ofChar c) text answers) := by
  -- The answers for the ends of the rest are needed first: a run that goes on asks the next one.
  induction text generalizing answers with
  | nil =>
    cases h with
    | cons hhere hnil =>
      cases hnil
      refine .cons ?_ .nil
      rw [covers_cons_nil, ← hhere]
      unfold Element.ofChar
      split_ifs <;> simp_all
  | cons d text ih =>
    cases h with
    | @cons here _ later _ hhere hlater =>
      have hnext : later.headD false = true ↔ Covers pattern text := Answers.headD hlater
      have hends := ih hlater
      have hgoes := hends.headD
      refine .cons ?_ hends
      by_cases hrun : c = '*'
      · subst hrun
        rw [covers_run, ← hhere, ← hgoes]
        simp [Element.ofChar]
      by_cases hone : c = '?'
      · subst hone
        rw [covers_one, ← hnext]
        simp [Element.ofChar]
      · rw [covers_exactly hrun hone, ← hnext]
        simp [Element.ofChar, hrun, hone]

/-- **The matcher says yes to the texts that a pattern covers,** and to no others. -/
theorem matchesAll_iff (pattern text : List Char) :
    matchesAll (pattern.map Element.ofChar) text = true ↔ Covers pattern text := by
  have hanswers : Answers pattern text ((pattern.map Element.ofChar).foldr
      (fun element answers => answersCons element text answers) (answersEmpty text)) := by
    induction pattern with
    | nil => exact answers_empty text
    | cons c pattern ih => exact answers_cons c ih
  exact hanswers.headD

/-- **The names that a pattern admits:** those that it covers, but a name that starts with a dot
only if the pattern does. -/
theorem admits_iff (step name : List Char) : admits step name = true ↔
    (name.head? = some '.' → step.head? = some '.') ∧ Covers step name := by
  unfold admits
  rw [Bool.and_eq_true, matchesAll_iff]
  by_cases hdot : name.head? = some '.' <;> simp [hdot]

end LineShell.Wildcard
