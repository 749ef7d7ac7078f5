import LineShell.Proofs.Line.Written
import Mathlib.Data.List.Basic
/-!
Two readings of quotes.

The scans of a line count every quote: one that opens is closed by the next one of its kind
(`Quote.after`). The words of a command are made piece by piece between white space, and of a piece
only the first quote and the last character count (`Quote.afterPiece`). So the two need not agree on
which text is quoted; they part where a quote is closed in the middle of a piece
(`Words.readings_part`).

They agree behind every piece of a command if, and only if, each piece is steady: at its last
character that quote is open which was open where the piece starts or, if none was, the first one in
front of that character (`Words.agree_iff_steady`). What a word behind a command becomes can be told
from the quote that the scans have open if, and only if, the two readings agree there on whether one
is open (`Words.wordsOf_append_word_iff`).
-/

set_option autoImplicit false

namespace LineShell

namespace Quote

/-- The first quote in a text. -/
def first? (text : List Char) : Option Quote := text.findSome? ofChar?

/-- **The quote that is open behind a piece** if only its first quote and its last character count,
and the first quote only where none was open. -/
def afterPiece (opened : Option Quote) (piece : List Char) : Option Quote :=
  match piece.getLast? with
  | none => opened
  | some last => next (opened.or (first? piece.dropLast)) last

variable {text : List Char} {opened : Option Quote}

/-- A text without quotes changes nothing. -/
theorem after_of_plain (h : ∀ c ∈ text, ofChar? c = none) (opened : Option Quote) :
    after opened text = opened := by
  induction text with
  | nil => rfl
  | cons c text ih =>
    rw [after_cons, next_of_no_quote opened (h c List.mem_cons_self)]
    exact ih fun d hd => h d (List.mem_cons_of_mem c hd)

theorem first?_eq_none_iff : first? text = none ↔ ∀ c ∈ text, ofChar? c = none :=
  List.findSome?_eq_none_iff

theorem afterPiece_concat (opened : Option Quote) (front : List Char) (last : Char) :
    afterPiece opened (front ++ [last]) = next (opened.or (first? front)) last := by
  rw [afterPiece, List.getLast?_concat]
  dsimp only
  rw [List.dropLast_concat]

/-- White characters do not count. -/
theorem after_filter (opened : Option Quote) (text : List Char) :
    after opened (text.filter fun c => !Text.isWhite c) = after opened text := by
  induction text generalizing opened with
  | nil => rfl
  | cons c text ih =>
    by_cases hc : Text.isWhite c = true
    · have hquote : ofChar? c = none := (Written.plain_of_isWhite hc).1
      rw [List.filter_cons_of_neg (by simp [hc]), after_cons, next_of_no_quote opened hquote, ih]
    · rw [List.filter_cons_of_pos (by simp [hc]), after_cons, after_cons, ih]

/-- **An open quote** is closed by its own kind and stays open otherwise, and only where it is open
does a character do that. -/
theorem next_eq_iff (quote : Quote) (c : Char) :
    next opened c = (if c = quote.char then none else some quote) ↔ opened = some quote := by
  constructor
  · intro h
    cases hc : ofChar? c with
    | none =>
      have hne : c ≠ quote.char := by
        rintro rfl
        rw [ofChar?_char] at hc
        cases hc
      rwa [next_of_no_quote opened hc, if_neg hne] at h
    | some found =>
      have hchar : c = found.char := ofChar?_eq_some_iff.1 hc
      subst hchar
      rcases opened with _ | other
      · rw [next_opening] at h
        by_cases hfound : found = quote
        · rw [hfound, if_pos rfl] at h
          cases h
        · have hne : found.char ≠ quote.char := by
            intro heq
            have hsame := ofChar?_char found
            rw [heq, ofChar?_char] at hsame
            exact hfound (Option.some.inj hsame).symm
          rw [if_neg hne] at h
          exact absurd (Option.some.inj h) hfound
      · cases found <;> cases other <;> cases quote <;> revert h <;> decide
  · rintro rfl
    by_cases hc : c = quote.char
    · rw [if_pos hc, hc, next_closing]
    · rw [if_neg hc, next_inside hc]

end Quote

theorem Text.words_flatten (text : List Char) :
    (Text.words text).flatten = text.filter fun c => !Text.isWhite c := by
  have hruns : ∀ runs : List (List Char), (runs.filter fun run => !run.isEmpty).flatten
      = runs.flatten := fun runs => List.flatten_filter_not_isEmpty
  rw [Text.words, hruns]
  induction text with
  | nil => rfl
  | cons c text ih =>
    rw [List.splitOnP_cons_eq_if_modifyHead]
    by_cases hc : Text.isWhite c = true
    · rw [if_pos hc, List.flatten_cons, List.nil_append, ih, List.filter_cons_of_neg (by simp [hc])]
    · obtain ⟨run, runs, hsplit⟩ :=
        List.exists_cons_of_ne_nil (List.splitOnP_ne_nil Text.isWhite text)
      rw [hsplit] at ih ⊢
      rw [if_neg hc, List.modifyHead_cons, List.flatten_cons, List.cons_append, ← List.flatten_cons,
        ih, List.filter_cons_of_pos (by simp [hc])]

namespace Words

/-! ## A word behind a command -/

variable {command word : List Char}

/-- A word of its own is the last piece of a command. -/
theorem scan_append (command : List Char) (hne : word ≠ [])
    (hdark : ∀ c ∈ word, Text.isWhite c = false) :
    scan (command ++ ' ' :: word) = step (scan command) word := by
  rw [scan, Text.words_append_white (by decide), Text.words_of_dark hne hdark, List.foldl_append]
  rfl

/-- **A word without quotes** stands for itself outside of phrases, and is more of the phrase in
one. -/
theorem words_step (state : State) (hplain : ∀ c ∈ word, Quote.ofChar? c = none) :
    (state.opened = none → (step state word).words = state.words ++ [word]) ∧
      (state.opened ≠ none → ∃ front last, state.words = front ++ [last] ∧
        (step state word).words = front ++ [last ++ ' ' :: word]) := by
  cases state with
  | outside done =>
    refine ⟨fun _ => ?_, fun h => absurd rfl h⟩
    rw [step, opening_of_plain hplain]
    simp only [State.words, List.reverse_cons]
  | inside quote current done =>
    have hopen : word.getLast? ≠ some quote.char := fun hlast =>
      Quote.not_mem_of_plain hplain quote (List.mem_of_getLast? hlast)
    refine ⟨fun h => absurd h (Option.some_ne_none quote), fun _ => ⟨done.reverse, current, ?_, ?_⟩⟩
    · simp only [State.words, List.reverse_cons]
    · rw [step, continuing_of_open hopen]
      simp only [State.words, List.reverse_cons]

/-! ## Steady pieces -/

/-- **A steady piece,** read where some quote is open: at its last character that quote is open or,
if none was, the first one in front of that character. -/
def SteadyPiece (opened : Option Quote) (piece : List Char) : Prop :=
  Quote.after opened piece.dropLast = opened.or (Quote.first? piece.dropLast)

/-- Pieces that are steady where they are read, one behind the other. -/
def SteadyPieces (opened : Option Quote) : List (List Char) → Prop
  | [] => True
  | piece :: rest => SteadyPiece opened piece ∧ SteadyPieces (Quote.after opened piece) rest

/-- **A steady command:** each of its pieces is steady. -/
def Steady (command : String) : Prop := SteadyPieces none (Text.words command.toList)

instance (opened : Option Quote) (piece : List Char) : Decidable (SteadyPiece opened piece) :=
  inferInstanceAs (Decidable (_ = _))

instance decidableSteadyPieces (opened : Option Quote) :
    (pieces : List (List Char)) → Decidable (SteadyPieces opened pieces)
  | [] => inferInstanceAs (Decidable True)
  | piece :: rest =>
    have := decidableSteadyPieces (Quote.after opened piece) rest
    inferInstanceAs (Decidable (_ ∧ _))

instance (command : String) : Decidable (Steady command) :=
  inferInstanceAs (Decidable (SteadyPieces _ _))

/-- The last character of a piece tells whether the phrase that it is in goes on. -/
theorem opened_continuing (quote : Quote) (current : List Char) (done : List (List Char))
    (front : List Char) (last : Char) :
    (continuing quote current done (front ++ [last])).opened
      = if last = quote.char then none else some quote := by
  by_cases hlast : last = quote.char
  · rw [if_pos hlast, hlast, continuing_of_quote]
    rfl
  · have hopen : (front ++ [last]).getLast? ≠ some quote.char := by
      rw [List.getLast?_concat]
      exact fun h => hlast (Option.some.inj h)
    rw [if_neg hlast, continuing_of_open hopen]
    rfl

/-- So it does for the phrase that a piece opens. -/
theorem opened_opening {lead : List Char} (hlead : ∀ c ∈ lead, Quote.ofChar? c = none)
    (quote : Quote) (front : List Char) (last : Char) (done : List (List Char)) :
    (opening done (lead ++ quote.char :: (front ++ [last]))).opened
      = if last = quote.char then none else some quote := by
  by_cases hlast : last = quote.char
  · rw [if_pos hlast, hlast, opening_of_quotes hlead]
    rfl
  · have hopen : (front ++ [last]).getLast? ≠ some quote.char := by
      rw [List.getLast?_concat]
      exact fun h => hlast (Option.some.inj h)
    rw [if_neg hlast, opening_of_open hlead hopen]
    rfl

theorem after_concat (opened : Option Quote) (front : List Char) (last : Char) :
    Quote.after opened (front ++ [last]) = Quote.next (Quote.after opened front) last := by
  rw [Quote.after_append, Quote.after_cons, Quote.after_nil]

/-- **One piece** leaves the words with the quote that its first quote and its last character
tell. -/
theorem opened_step (state : State) {piece : List Char} (hne : piece ≠ []) :
    (step state piece).opened = Quote.afterPiece state.opened piece := by
  obtain ⟨front, last, rfl⟩ := (List.eq_nil_or_concat' piece).resolve_left hne
  rw [Quote.afterPiece_concat]
  cases state with
  | inside quote current done =>
    rw [step, opened_continuing, State.opened, Option.some_or]
    exact ((Quote.next_eq_iff quote last).2 rfl).symm
  | outside done =>
    rw [step, State.opened, Option.none_or]
    rcases plain_or_quote front with hplain | ⟨lead, quote, rest, rfl, hlead⟩
    · rw [Quote.first?_eq_none_iff.2 hplain]
      cases hlast : Quote.ofChar? last with
      | none =>
        have hpiece : ∀ c ∈ front ++ [last], Quote.ofChar? c = none :=
          List.forall_mem_append.2 ⟨hplain, List.forall_mem_singleton.2 hlast⟩
        rw [opening_of_plain hpiece, Quote.next_of_no_quote none hlast]
        rfl
      | some quote =>
        -- The quote that opens the phrase is the last character.
        obtain rfl : last = quote.char := Quote.ofChar?_eq_some_iff.1 hlast
        have hopen : ([] : List Char).getLast? ≠ some quote.char :=
          (Option.some_ne_none quote.char).symm
        rw [opening_of_open hplain hopen, Quote.next_opening]
        rfl
    · -- The phrase is open behind its quote, and the last character may close it.
      have hplain : lead.findSome? Quote.ofChar? = none := Quote.first?_eq_none_iff.2 hlead
      have hfirst : Quote.first? (lead ++ quote.char :: rest) = some quote := by
        rw [Quote.first?, List.findSome?_append, hplain, Option.none_or, List.findSome?_cons,
          Quote.ofChar?_char]
      rw [List.append_assoc, List.cons_append, opened_opening hlead, hfirst]
      exact ((Quote.next_eq_iff quote last).2 rfl).symm

/-- The two readings take a piece in the same way if, and only if, it is steady. -/
theorem afterPiece_eq_iff (opened : Option Quote) {piece : List Char} (hne : piece ≠ []) :
    Quote.afterPiece opened piece = Quote.after opened piece ↔ SteadyPiece opened piece := by
  obtain ⟨front, last, rfl⟩ := (List.eq_nil_or_concat' piece).resolve_left hne
  rw [SteadyPiece, List.dropLast_concat, after_concat, Quote.afterPiece_concat]
  cases hopened : opened.or (Quote.first? front) with
  | none =>
    -- There is nothing to part over.
    obtain ⟨rfl, hfirst⟩ := Option.or_eq_none_iff.1 hopened
    rw [Quote.after_of_plain (Quote.first?_eq_none_iff.1 hfirst)]
    exact iff_of_true rfl rfl
  | some quote =>
    rw [(Quote.next_eq_iff quote last).2 rfl, eq_comm]
    exact Quote.next_eq_iff quote last

/-! ## Commands -/

/-- **The two readings agree behind every piece if, and only if, each piece is steady.** -/
theorem agree_iff_steadyPieces {pieces : List (List Char)} (hne : ∀ piece ∈ pieces, piece ≠ [])
    (opened : Option Quote) :
    (∀ front, front <+: pieces →
        front.foldl Quote.afterPiece opened = front.foldl Quote.after opened) ↔
      SteadyPieces opened pieces := by
  induction pieces generalizing opened with
  | nil =>
    refine iff_of_true (fun front hfront => ?_) trivial
    rw [List.prefix_nil.1 hfront]
    rfl
  | cons piece rest ih =>
    have hpiece : piece ≠ [] := hne piece List.mem_cons_self
    have hrest : ∀ other ∈ rest, other ≠ [] :=
      fun other hother => hne other (List.mem_cons_of_mem _ hother)
    constructor
    · intro h
      have hone : Quote.afterPiece opened piece = Quote.after opened piece :=
        h [piece] (List.prefix_append [piece] rest)
      refine ⟨(afterPiece_eq_iff opened hpiece).1 hone, (ih hrest _).1 fun front hfront => ?_⟩
      have hmore := h (piece :: front) (List.cons_prefix_cons.2 ⟨rfl, hfront⟩)
      rwa [List.foldl_cons, List.foldl_cons, hone] at hmore
    · rintro ⟨hsteady, hmore⟩ front hfront
      have hone := (afterPiece_eq_iff opened hpiece).2 hsteady
      cases front with
      | nil => rfl
      | cons first front =>
        obtain ⟨rfl, hfront'⟩ := List.cons_prefix_cons.1 hfront
        rw [List.foldl_cons, List.foldl_cons, hone, (ih hrest _).2 hmore front hfront']

theorem ne_nil_of_mem_words {text piece : List Char} (h : piece ∈ Text.words text) :
    piece ≠ [] := by
  have hpiece := (List.mem_filter.1 h).2
  rintro rfl
  cases hpiece

/-- **The quote that is open behind a command,** read piece by piece. -/
def quoteBehind (command : String) : Option Quote :=
  (Text.words command.toList).foldl Quote.afterPiece none

/-- **The two readings agree behind every piece of a command if, and only if, it is steady.** -/
theorem agree_iff_steady (command : String) :
    (∀ front, front <+: Text.words command.toList →
        front.foldl Quote.afterPiece none = Quote.after none front.flatten) ↔
      Steady command := by
  have hflat : ∀ pieces : List (List Char),
      Quote.after none pieces.flatten = pieces.foldl Quote.after none := by
    intro pieces
    rw [Quote.after, List.foldl_flatten]
    rfl
  simp only [hflat]
  exact agree_iff_steadyPieces (fun piece => ne_nil_of_mem_words) none

/-- Both readings have the same quote open behind a steady command. -/
theorem quoteBehind_of_steady {command : String} (h : Steady command) :
    quoteBehind command = Quote.after none command.toList := by
  have hagree := (agree_iff_steady command).2 h _ (List.prefix_refl _)
  rw [Text.words_flatten, Quote.after_filter] at hagree
  exact hagree

theorem opened_foldl {pieces : List (List Char)} (hne : ∀ piece ∈ pieces, piece ≠ [])
    (state : State) :
    (pieces.foldl step state).opened = pieces.foldl Quote.afterPiece state.opened := by
  induction pieces generalizing state with
  | nil => rfl
  | cons piece rest ih =>
    rw [List.foldl_cons, List.foldl_cons, ← opened_step state (hne piece List.mem_cons_self)]
    exact ih (fun other hother => hne other (List.mem_cons_of_mem _ hother)) _

/-- The words of a command have the quote open that is read piece by piece. -/
theorem opened_scan (command : String) : (scan command.toList).opened = quoteBehind command :=
  opened_foldl (fun _ => ne_nil_of_mem_words) (.outside [])

/-- **A word behind a command** is a word of its own if, read piece by piece, no quote is open
there, and ends up at the end of the last word otherwise. -/
theorem wordsOf_append (command : String) {word : String} (hne : word ≠ "")
    (hword : ∀ c ∈ word.toList, Text.isWhite c = false ∧ Quote.ofChar? c = none) :
    (quoteBehind command = none →
        wordsOf (command ++ " " ++ word) = wordsOf command ++ [word]) ∧
      (quoteBehind command ≠ none → ∃ front last,
        wordsOf command = front ++ [last] ∧
          wordsOf (command ++ " " ++ word) = front ++ [last ++ " " ++ word]) := by
  have hlist : (command ++ " " ++ word).toList = command.toList ++ ' ' :: word.toList := by
    rw [String.toList_append, String.toList_append, List.append_assoc]
    rfl
  have hnil : word.toList ≠ [] := by
    rwa [ne_eq, String.toList_eq_nil_iff]
  have hscan : scan (command ++ " " ++ word).toList = step (scan command.toList) word.toList := by
    rw [hlist, scan_append command.toList hnil fun c hc => (hword c hc).1]
  obtain ⟨hclosed, hopen⟩ := words_step (scan command.toList) fun c hc => (hword c hc).2
  rw [opened_scan] at hclosed hopen
  constructor
  · intro hnone
    rw [wordsOf, wordsOf, ofChars, ofChars, hscan, hclosed hnone, List.map_append,
      List.map_singleton, String.ofList_toList]
  · intro hsome
    obtain ⟨front, last, hwords, hmore⟩ := hopen hsome
    refine ⟨front.map String.ofList, String.ofList last, ?_, ?_⟩
    · rw [wordsOf, ofChars, hwords, List.map_append, List.map_singleton]
    · have hglued : String.ofList (last ++ ' ' :: word.toList)
          = String.ofList last ++ " " ++ word := by
        rw [← String.toList_inj]
        simp only [String.toList_ofList, String.toList_append, List.append_assoc]
        rfl
      rw [wordsOf, ofChars, hscan, hmore, List.map_append, List.map_singleton, hglued]

/-- **What becomes of a word behind a command** can be told from the quote that the scans have open
there if, and only if, the two readings agree on whether one is open: the word is a word of its own
if none is open; otherwise it ends up at the end of the last word, and there are as many words as
without it. The two readings agree behind a steady command. -/
theorem wordsOf_append_word_iff {command word : String} (hne : word ≠ "")
    (hword : ∀ c ∈ word.toList, Text.isWhite c = false ∧ Quote.ofChar? c = none) :
    ((quoteBehind command = none ↔ Quote.after none command.toList = none) ↔
      (Quote.after none command.toList = none →
          wordsOf (command ++ " " ++ word) = wordsOf command ++ [word]) ∧
        (Quote.after none command.toList ≠ none → ∃ front last,
          wordsOf command = front ++ [last] ∧
            wordsOf (command ++ " " ++ word) = front ++ [last ++ " " ++ word])) ∧
      (Steady command → quoteBehind command = Quote.after none command.toList) := by
  obtain ⟨hclosed, hopen⟩ := wordsOf_append command hne hword
  -- A word of its own is one word more.
  have hpart (hown : wordsOf (command ++ " " ++ word) = wordsOf command ++ [word])
      (hglued : ∃ front last, wordsOf command = front ++ [last] ∧
        wordsOf (command ++ " " ++ word) = front ++ [last ++ " " ++ word]) : False := by
    obtain ⟨front, last, hwords, hmore⟩ := hglued
    have hlength := congrArg List.length (hown.symm.trans hmore)
    rw [hwords] at hlength
    simp at hlength
  refine ⟨⟨fun hagree => ⟨fun hafter => hclosed (hagree.2 hafter), fun hafter => ?_⟩,
    fun ⟨hnone, hsome⟩ => ⟨fun hbehind => ?_, fun hafter => ?_⟩⟩, quoteBehind_of_steady⟩
  · exact hopen fun hbehind => hafter (hagree.1 hbehind)
  · by_contra hafter
    exact hpart (hclosed hbehind) (hsome hafter)
  · by_contra hbehind
    exact hpart (hnone hafter) (hopen hbehind)

/-- A letter is a word without white space and quotes. -/
theorem letter_plain : ∀ c ∈ "w".toList, Text.isWhite c = false ∧ Quote.ofChar? c = none := by
  intro c hc
  obtain rfl : c = 'w' := List.mem_singleton.1 hc
  decide

/-- A quote that is opened, closed and opened again in one piece, with another quote in the
phrase. -/
theorem wordsOf_append_word_iff_reopened :
    Steady "echo \"a\"b\"it's" ∧
      ∃ front last, wordsOf "echo \"a\"b\"it's" = front ++ [last] ∧
        wordsOf ("echo \"a\"b\"it's" ++ " " ++ "w") = front ++ [last ++ " " ++ "w"] := by
  have hsteady : Steady "echo \"a\"b\"it's" := by decide +kernel
  obtain ⟨hiff, hagree⟩ := @wordsOf_append_word_iff "echo \"a\"b\"it's" "w" (by decide)
    letter_plain
  have hsame := hagree hsteady
  exact ⟨hsteady, (hiff.1 (by rw [hsame])).2 (by decide +kernel)⟩

/-- **The two readings part** where a quote is closed in the middle of a piece: no quote is open
behind `a"b"c`, and yet a word behind it is no word of its own. -/
theorem readings_part :
    ¬ ∀ line command word : String, command ∈ commandsOf line → word ≠ "" →
      (∀ c ∈ word.toList, Text.isWhite c = false ∧ Quote.ofChar? c = none) →
      (Quote.after none command.toList = none →
          wordsOf (command ++ " " ++ word) = wordsOf command ++ [word]) ∧
        (Quote.after none command.toList ≠ none → ∃ front last,
          wordsOf command = front ++ [last] ∧
            wordsOf (command ++ " " ++ word) = front ++ [last ++ " " ++ word]) := by
  intro h
  have hclosed := (h "a\"b\"c" "a\"b\"c" "w" (by decide +kernel) (by decide) letter_plain).1
    (by decide +kernel)
  revert hclosed
  decide +kernel

end Words

end LineShell
