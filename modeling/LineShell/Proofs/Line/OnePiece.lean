import LineShell.Words
/-!
What one piece of a command does to its words.

Outside of phrases only the first quote of a piece counts, and with it the last character. So a
piece has no quote, or it is cut in two at the first one (`Words.plain_or_quote`), and there is an
equation for each way in which it can go on from there. Inside a phrase the last character alone
counts.
-/

set_option autoImplicit false

namespace LineShell

/-- A text without quotes. -/
theorem Quote.not_mem_of_plain {text : List Char} (h : ∀ c ∈ text, ofChar? c = none)
    (quote : Quote) : quote.char ∉ text := by
  intro hmem
  have hnone := h quote.char hmem
  rw [ofChar?_char] at hnone
  cases hnone

namespace Words

variable {piece lead rest : List Char} {quote : Quote}

/-! ## Quotes that are dropped -/

theorem dropEnd?_eq_some_iff {last : Char} {text front : List Char} :
    dropEnd? last text = some front ↔ text = front ++ [last] := by
  unfold dropEnd?
  constructor
  · intro h
    split at h
    · next hlast =>
      obtain ⟨front', rfl⟩ := List.getLast?_eq_some_iff.1 hlast
      simpa using h
    · cases h
  · rintro rfl
    simp

/-- A piece has no quote, or it has a first one. -/
theorem plain_or_quote (piece : List Char) : (∀ c ∈ piece, Quote.ofChar? c = none) ∨
    ∃ lead quote rest, piece = lead ++ Quote.char quote :: rest ∧
      ∀ c ∈ lead, Quote.ofChar? c = none := by
  induction piece with
  | nil => exact .inl fun _ h => absurd h List.not_mem_nil
  | cons c piece ih =>
    cases hc : Quote.ofChar? c with
    | some quote =>
      refine .inr ⟨[], quote, piece, ?_, fun _ h => absurd h List.not_mem_nil⟩
      rw [Quote.ofChar?_eq_some_iff.1 hc, List.nil_append]
    | none =>
      rcases ih with hplain | ⟨lead, quote, rest, rfl, hlead⟩
      · exact .inl (List.forall_mem_cons.2 ⟨hc, hplain⟩)
      · exact .inr ⟨c :: lead, quote, rest, rfl, List.forall_mem_cons.2 ⟨hc, hlead⟩⟩

theorem dropQuote?_of_plain (h : ∀ c ∈ piece, Quote.ofChar? c = none) :
    dropQuote? piece = none := by
  induction piece with
  | nil => rfl
  | cons c piece ih =>
    obtain ⟨hc, hrest⟩ := List.forall_mem_cons.1 h
    rw [dropQuote?, hc]
    dsimp only
    rw [ih hrest, Option.map_none]

/-- The first quote of a piece is dropped. -/
theorem dropQuote?_append (hlead : ∀ c ∈ lead, Quote.ofChar? c = none) (quote : Quote)
    (rest : List Char) : dropQuote? (lead ++ quote.char :: rest) = some (quote, lead ++ rest) := by
  induction lead with
  | nil =>
    rw [List.nil_append, dropQuote?, Quote.ofChar?_char]
    rfl
  | cons c lead ih =>
    obtain ⟨hc, hrest⟩ := List.forall_mem_cons.1 hlead
    rw [List.cons_append, dropQuote?, hc]
    dsimp only
    rw [ih hrest, Option.map_some, List.cons_append]

/-! ## Outside of phrases -/

/-- A piece without quotes is a word. -/
theorem opening_of_plain (h : ∀ c ∈ piece, Quote.ofChar? c = none) (done : List (List Char)) :
    opening done piece = .outside (piece :: done) := by
  rw [opening, dropQuote?_of_plain h]

/-- A piece with a quote opens a phrase unless it ends in that quote behind it. -/
theorem opening_of_open (hlead : ∀ c ∈ lead, Quote.ofChar? c = none)
    (hopen : rest.getLast? ≠ some quote.char) (done : List (List Char)) :
    opening done (lead ++ quote.char :: rest) = .inside quote (lead ++ rest) done := by
  have hend : dropEnd? quote.char (lead ++ rest) = none := by
    refine if_neg fun hlast => ?_
    rw [List.getLast?_append, Option.or_eq_some_iff] at hlast
    rcases hlast with hlast | ⟨-, hlast⟩
    · exact hopen hlast
    · exact Quote.not_mem_of_plain hlead quote (List.mem_of_getLast? hlast)
  rw [opening, dropQuote?_append hlead]
  dsimp only
  rw [hend]

/-- If it does, it is a whole phrase. -/
theorem opening_of_quotes (hlead : ∀ c ∈ lead, Quote.ofChar? c = none) (quote : Quote)
    (phrase : List Char) (done : List (List Char)) :
    opening done (lead ++ quote.char :: (phrase ++ [quote.char]))
      = .outside ((lead ++ phrase) :: done) := by
  have hend : dropEnd? quote.char (lead ++ (phrase ++ [quote.char])) = some (lead ++ phrase) :=
    dropEnd?_eq_some_iff.2 (List.append_assoc _ _ _).symm
  rw [opening, dropQuote?_append hlead]
  dsimp only
  rw [hend]

/-! ## Inside a phrase -/

/-- A phrase goes on with a piece that does not end in its quote. -/
theorem continuing_of_open (hopen : piece.getLast? ≠ some quote.char) (current : List Char)
    (done : List (List Char)) :
    continuing quote current done piece = .inside quote (current ++ ' ' :: piece) done := by
  have hend : dropEnd? quote.char piece = none := if_neg hopen
  rw [continuing, hend]

/-- A phrase ends with a piece that ends in its quote. -/
theorem continuing_of_quote (quote : Quote) (current front : List Char)
    (done : List (List Char)) : continuing quote current done (front ++ [quote.char])
      = .outside ((current ++ ' ' :: front) :: done) := by
  have hend : dropEnd? quote.char (front ++ [quote.char]) = some front :=
    dropEnd?_eq_some_iff.2 rfl
  rw [continuing, hend]

end Words

end LineShell
