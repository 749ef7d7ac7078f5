import LineShell.Proofs.Line.Phrases
import Mathlib.Data.List.Chain
/-!
Words are glued from pieces, and nothing but quotes is lost.

A word is made of the pieces between white space: of one of them, or of several with single spaces
in between. A piece without quotes is a word as it stands. Otherwise the first quote is dropped, and
with it the next one of its kind that ends a piece; there the word ends. Only the last word can lack
such an end. This is what `Words.Gathered` says of pieces and words. It is what the scan comes to,
piece by piece (`gathered_foldl`), and nothing else can be gathered (`Gathered.words_foldl`).

So the words with single spaces in between are the pieces with single spaces in between, without
some of their quotes (`Gathered.unquoted`). All else that is said of the words here is read off
`Gathered` too.
-/

set_option autoImplicit false

namespace LineShell

theorem Text.of_mem_words {text piece : List Char} {c : Char} (hpiece : piece ∈ Text.words text)
    (hc : c ∈ piece) : c ∈ text ∧ Text.isWhite c = false := by
  have hflat : c ∈ (Text.words text).flatten := List.mem_flatten_of_mem hpiece hc
  rw [Text.words_flatten, List.mem_filter] at hflat
  exact ⟨hflat.1, by simpa using hflat.2⟩

namespace Words

variable {pieces more words : List (List Char)} {piece text word : List Char} {quote : Quote}

/-! ## Pieces with spaces in between -/

/-- Pieces with single spaces in between. -/
def joined (pieces : List (List Char)) : List Char := [' '].intercalate pieces

theorem joined_singleton (piece : List Char) : joined [piece] = piece :=
  List.intercalate_singleton

theorem joined_cons (hmore : more ≠ []) (piece : List Char) :
    joined (piece :: more) = piece ++ ' ' :: joined more := by
  rw [joined, List.intercalate_cons_of_ne_nil hmore, List.append_assoc]
  rfl

theorem joined_append (hpieces : pieces ≠ []) (hmore : more ≠ []) :
    joined (pieces ++ more) = joined pieces ++ ' ' :: joined more := by
  induction pieces with
  | nil => exact absurd rfl hpieces
  | cons piece pieces ih =>
    by_cases hrest : pieces = []
    · rw [hrest, joined_singleton, List.singleton_append, joined_cons hmore]
    · have hne : pieces ++ more ≠ [] := List.append_ne_nil_of_left_ne_nil hrest more
      rw [List.cons_append, joined_cons hne, joined_cons hrest, ih hrest, List.append_assoc,
        List.cons_append]

theorem mem_joined {c : Char} (h : c ∈ joined pieces) : c = ' ' ∨ ∃ piece ∈ pieces, c ∈ piece := by
  induction pieces with
  | nil => cases h
  | cons piece pieces ih =>
    by_cases hrest : pieces = []
    · rw [hrest, joined_singleton] at h
      exact .inr ⟨piece, List.mem_cons_self, h⟩
    · rw [joined_cons hrest, List.mem_append, List.mem_cons] at h
      rcases h with hpiece | hspace | hmore
      · exact .inr ⟨piece, List.mem_cons_self, hpiece⟩
      · exact .inl hspace
      · refine (ih hmore).imp_right ?_
        rintro ⟨other, hmem, hc⟩
        exact ⟨other, List.mem_cons_of_mem piece hmem, hc⟩

theorem mem_joined_of_mem {c : Char} (hpiece : piece ∈ pieces) (hc : c ∈ piece) :
    c ∈ joined pieces := by
  obtain ⟨front, back, rfl⟩ := List.append_of_mem hpiece
  have hback : c ∈ joined (piece :: back) := by
    by_cases hne : back = []
    · rwa [hne, joined_singleton]
    · rw [joined_cons hne]
      exact List.mem_append_left _ hc
  by_cases hne : front = []
  · rwa [hne, List.nil_append]
  · rw [joined_append hne (List.cons_ne_nil _ _)]
    exact List.mem_append_right _ (List.mem_cons_of_mem _ hback)

/-! ## Texts without some of their quotes -/

/-- **What is left of a text when some of its quotes are taken out.** The order is kept, and so is
every other character. -/
structure Unquoted (text left : List Char) : Prop where
  sublist : left.Sublist text
  others : left.filter (fun c => (Quote.ofChar? c).isNone)
    = text.filter fun c => (Quote.ofChar? c).isNone

theorem unquoted_refl (text : List Char) : Unquoted text text := ⟨List.Sublist.refl text, rfl⟩

theorem Unquoted.append {s t left right : List Char} (hs : Unquoted s left)
    (ht : Unquoted t right) : Unquoted (s ++ t) (left ++ right) :=
  ⟨hs.sublist.append ht.sublist, by
    rw [List.filter_append, List.filter_append, hs.others, ht.others]⟩

theorem unquoted_quote (quote : Quote) : Unquoted [quote.char] [] := by
  refine ⟨List.nil_sublist _, ?_⟩
  cases quote <;> rfl

/-- One quote is taken out. -/
theorem unquoted_between (quote : Quote) (front back : List Char) :
    Unquoted (front ++ quote.char :: back) (front ++ back) :=
  (unquoted_refl front).append ((unquoted_quote quote).append (unquoted_refl back))

theorem Unquoted.trans {s t u : List Char} (h : Unquoted s t) (h' : Unquoted t u) :
    Unquoted s u :=
  ⟨h'.sublist.trans h.sublist, h'.others.trans h.others⟩

/-! ## What a word is made of -/

/-- A text with spaces in which the quote ends no piece in front of a space. -/
def Unbroken (quote : Quote) (text : List Char) : Prop :=
  text.IsChain fun c next => c = quote.char → next ≠ ' '

/-- **A phrase that is open:** its pieces without their first quote, which stands in the first of
them. None of them has ended in that quote since. -/
inductive Begun (quote : Quote) (pieces : List (List Char)) : List Char → Prop where
  | intro (lead rest : List Char) (hjoined : joined pieces = lead ++ quote.char :: rest)
      (hlead : ∀ c ∈ lead, Quote.ofChar? c = none) (hfirst : ' ' ∉ lead)
      (hrest : Unbroken quote rest) (hopen : rest.getLast? ≠ some quote.char) :
      Begun quote pieces (lead ++ rest)

/-- **A whole word and its pieces:** a piece without quotes, or a phrase without its first quote,
which stands in the first piece, and without the next one of its kind that ends a piece. -/
inductive Glued : List (List Char) → List Char → Prop where
  | plain {piece : List Char} (hplain : ∀ c ∈ piece, Quote.ofChar? c = none) : Glued [piece] piece
  | phrase {pieces : List (List Char)} (quote : Quote) (lead phrase : List Char)
      (hjoined : joined pieces = lead ++ quote.char :: (phrase ++ [quote.char]))
      (hlead : ∀ c ∈ lead, Quote.ofChar? c = none) (hfirst : ' ' ∉ lead)
      (hphrase : Unbroken quote (phrase ++ [quote.char])) : Glued pieces (lead ++ phrase)

/-- **Pieces and the words that they are glued to,** in order. Words end where pieces end, and only
the last word may be a phrase that is open. -/
inductive Gathered : List (List Char) → List (List Char) → Prop where
  | nothing : Gathered [] []
  | word {group pieces : List (List Char)} {word : List Char} {words : List (List Char)}
      (hword : Glued group word) (h : Gathered pieces words) :
      Gathered (group ++ pieces) (word :: words)
  | unfinished {group : List (List Char)} {quote : Quote} {word : List Char}
      (h : Begun quote group word) : Gathered group [word]

theorem space_ne_quote (quote : Quote) : ' ' ≠ quote.char := by
  cases quote <;> decide

/-- In a text without spaces no piece ends in front of one. -/
theorem unbroken_of_dark (h : ' ' ∉ text) : Unbroken quote text := by
  induction text with
  | nil => exact .nil
  | cons c text ih =>
    rw [List.mem_cons, not_or] at h
    refine List.isChain_cons.2 ⟨fun next hnext _ => ?_, ih h.2⟩
    rintro rfl
    exact h.2 (List.mem_of_mem_head? hnext)

/-- A piece goes on behind a text that does not end in the quote. -/
theorem unbroken_space_iff (hdark : ' ' ∉ piece) :
    Unbroken quote (text ++ ' ' :: piece) ↔
      Unbroken quote text ∧ text.getLast? ≠ some quote.char := by
  have hpiece : Unbroken quote (' ' :: piece) :=
    List.isChain_cons.2 ⟨fun _ _ heq => absurd heq (space_ne_quote quote), unbroken_of_dark hdark⟩
  refine List.isChain_append.trans (and_congr_right fun _ => ⟨fun h hlast => ?_, fun hopen => ?_⟩)
  · exact h.2 quote.char hlast ' ' rfl rfl rfl
  · refine ⟨hpiece, fun c hc _ _ heq => ?_⟩
    subst heq
    exact absurd hc hopen

theorem Begun.ne_nil (h : Begun quote pieces word) : pieces ≠ [] := by
  obtain ⟨lead, rest, hjoined, -, -, -, -⟩ := h
  rintro rfl
  have hne : lead ++ quote.char :: rest ≠ [] := by simp
  exact hne hjoined.symm

theorem Glued.ne_nil (h : Glued pieces word) : pieces ≠ [] := by
  cases h with
  | plain => exact List.cons_ne_nil _ _
  | phrase quote lead phrase hjoined =>
    rintro rfl
    have hne : lead ++ quote.char :: (phrase ++ [quote.char]) ≠ [] := by simp
    exact hne hjoined.symm

/-! ## One piece more -/

/-- A piece with a quote opens a phrase unless it ends in that quote behind it. -/
theorem begun_of_quote {lead rest : List Char} (hlead : ∀ c ∈ lead, Quote.ofChar? c = none)
    (hdark : ' ' ∉ lead ++ quote.char :: rest) (hopen : rest.getLast? ≠ some quote.char) :
    Begun quote [lead ++ quote.char :: rest] (lead ++ rest) := by
  simp only [List.mem_append, List.mem_cons, not_or] at hdark
  exact .intro lead rest (joined_singleton _) hlead hdark.1 (unbroken_of_dark hdark.2.2) hopen

/-- If it does, it is a whole phrase. -/
theorem glued_of_quotes {lead phrase : List Char} (hlead : ∀ c ∈ lead, Quote.ofChar? c = none)
    (hdark : ' ' ∉ lead ++ quote.char :: (phrase ++ [quote.char])) :
    Glued [lead ++ quote.char :: (phrase ++ [quote.char])] (lead ++ phrase) := by
  rw [List.mem_append, List.mem_cons, not_or, not_or] at hdark
  exact .phrase quote lead phrase (joined_singleton _) hlead hdark.1 (unbroken_of_dark hdark.2.2)

/-- A phrase goes on with a piece that does not end in its quote. -/
theorem Begun.goOn (h : Begun quote pieces word) (hne : piece ≠ []) (hdark : ' ' ∉ piece)
    (hopen : piece.getLast? ≠ some quote.char) :
    Begun quote (pieces ++ [piece]) (word ++ ' ' :: piece) := by
  have hpieces := h.ne_nil
  obtain ⟨lead, rest, hjoined, hlead, hfirst, hrest, hlast⟩ := h
  rw [List.append_assoc]
  refine .intro lead (rest ++ ' ' :: piece) ?_ hlead hfirst
    ((unbroken_space_iff hdark).2 ⟨hrest, hlast⟩) ?_
  · rw [joined_append hpieces (List.cons_ne_nil _ _), hjoined, joined_singleton,
      List.append_assoc, List.cons_append]
  · rwa [List.getLast?_append_of_ne_nil _ (List.cons_ne_nil _ _), List.getLast?_cons_of_ne_nil hne]

/-- A phrase ends with a piece that ends in its quote. -/
theorem Begun.close (h : Begun quote pieces word) (hdark : ' ' ∉ text ++ [quote.char]) :
    Glued (pieces ++ [text ++ [quote.char]]) (word ++ ' ' :: text) := by
  have hpieces := h.ne_nil
  obtain ⟨lead, rest, hjoined, hlead, hfirst, hrest, hlast⟩ := h
  rw [List.append_assoc]
  refine .phrase quote lead (rest ++ ' ' :: text) ?_ hlead hfirst ?_
  · rw [joined_append hpieces (List.cons_ne_nil _ _), hjoined, joined_singleton]
    simp only [List.append_assoc, List.cons_append]
  · rw [List.append_assoc, List.cons_append]
    exact (unbroken_space_iff hdark).2 ⟨hrest, hlast⟩

/-! ## One piece less -/

/-- A quote that stands in the first of several pieces stands in front of the last one. -/
theorem exists_joined_of_concat {lead rest : List Char} (hpieces : pieces ≠ [])
    (hfirst : ' ' ∉ lead) (h : joined (pieces ++ [piece]) = lead ++ quote.char :: rest) :
    ∃ middle, joined pieces = lead ++ quote.char :: middle ∧ rest = middle ++ ' ' :: piece := by
  rw [joined_append hpieces (List.cons_ne_nil _ _), joined_singleton] at h
  rcases List.append_eq_append_iff.1 h with ⟨middle, rfl, hback⟩ | ⟨middle, hfront, hback⟩
  · -- The quote would stand behind the space.
    cases middle with
    | nil => exact absurd (List.cons.inj hback).1 (space_ne_quote quote)
    | cons c middle =>
      obtain rfl : ' ' = c := (List.cons.inj hback).1
      exact absurd (List.mem_append_right _ List.mem_cons_self) hfirst
  · cases middle with
    | nil => exact absurd (List.cons.inj hback).1.symm (space_ne_quote quote)
    | cons c middle =>
      obtain ⟨rfl, rfl⟩ := List.cons.inj hback
      exact ⟨middle, hfront, rfl⟩

/-- Of a phrase that is open the last piece is all there is, or the phrase was open in front of
it. -/
theorem Begun.cases_concat (h : Begun quote (pieces ++ [piece]) word) (hne : piece ≠ [])
    (hdark : ' ' ∉ piece) :
    (pieces = [] ∧ ∃ lead rest, piece = lead ++ quote.char :: rest ∧
        (∀ c ∈ lead, Quote.ofChar? c = none) ∧ rest.getLast? ≠ some quote.char ∧
        word = lead ++ rest) ∨
      ∃ text, Begun quote pieces text ∧ piece.getLast? ≠ some quote.char ∧
        word = text ++ ' ' :: piece := by
  obtain ⟨lead, rest, hjoined, hlead, hfirst, hrest, hopen⟩ := h
  by_cases hpieces : pieces = []
  · rw [hpieces, List.nil_append, joined_singleton] at hjoined
    exact .inl ⟨hpieces, lead, rest, hjoined, hlead, hopen, rfl⟩
  · obtain ⟨middle, hmiddle, rfl⟩ := exists_joined_of_concat hpieces hfirst hjoined
    obtain ⟨hchain, hlast⟩ := (unbroken_space_iff hdark).1 hrest
    rw [List.getLast?_append_of_ne_nil _ (List.cons_ne_nil _ _),
      List.getLast?_cons_of_ne_nil hne] at hopen
    exact .inr ⟨lead ++ middle, .intro lead middle hmiddle hlead hfirst hchain hlast, hopen,
      (List.append_assoc _ _ _).symm⟩

/-- Of a whole word the last piece is all there is, or it ends a phrase that was open. -/
theorem Glued.cases_concat (h : Glued (pieces ++ [piece]) word) (hne : piece ≠ [])
    (hdark : ' ' ∉ piece) :
    (pieces = [] ∧ piece = word ∧ ∀ c ∈ word, Quote.ofChar? c = none) ∨
      (pieces = [] ∧ ∃ quote lead phrase,
        piece = lead ++ Quote.char quote :: (phrase ++ [quote.char]) ∧
        (∀ c ∈ lead, Quote.ofChar? c = none) ∧ word = lead ++ phrase) ∨
      ∃ quote text front, Begun quote pieces text ∧ piece = front ++ [quote.char] ∧
        word = text ++ ' ' :: front := by
  generalize hgroup : pieces ++ [piece] = group at h
  cases h with
  | plain hplain =>
    obtain ⟨rfl, hpiece⟩ := List.append_eq_singleton_iff.1 hgroup |>.resolve_right (by simp)
    exact .inl ⟨rfl, by simpa using hpiece, hplain⟩
  | phrase quote lead phrase hjoined hlead hfirst hphrase =>
    subst hgroup
    by_cases hpieces : pieces = []
    · rw [hpieces, List.nil_append, joined_singleton] at hjoined
      exact .inr (.inl ⟨hpieces, quote, lead, phrase, hjoined, hlead, rfl⟩)
    · obtain ⟨middle, hmiddle, hend⟩ := exists_joined_of_concat hpieces hfirst hjoined
      obtain ⟨front, last, rfl⟩ := (List.eq_nil_or_concat' piece).resolve_left hne
      rw [hend] at hphrase
      obtain ⟨hchain, hlast⟩ := (unbroken_space_iff hdark).1 hphrase
      rw [← List.cons_append, ← List.append_assoc] at hend
      obtain ⟨rfl, hquote⟩ := List.append_inj' hend rfl
      obtain rfl : quote.char = last := (List.cons.inj hquote).1
      exact .inr (.inr ⟨quote, lead ++ middle, front,
        .intro lead middle hmiddle hlead hfirst hchain hlast, rfl,
        (List.append_assoc _ _ _).symm⟩)

/-! ## The scan -/

/-- The words of a state that are whole, latest first. -/
def State.whole : State → List (List Char)
  | outside done => done
  | inside _ _ done => done

/-- The pieces that a state has taken up behind the last whole word. -/
def State.Holds (group : List (List Char)) : State → Prop
  | outside _ => group = []
  | inside quote text _ => Begun quote group text

/-- **One piece** makes a whole word of what a state holds, or goes on with it. -/
theorem step_cases {state : State} {group : List (List Char)} (h : state.Holds group)
    (hne : piece ≠ []) (hdark : ' ' ∉ piece) :
    (∃ word, Glued (group ++ [piece]) word ∧
        step state piece = .outside (word :: state.whole)) ∨
      ∃ quote text, Begun quote (group ++ [piece]) text ∧
        step state piece = .inside quote text state.whole := by
  cases state with
  | outside done =>
    obtain rfl : group = [] := h
    rw [List.nil_append]
    rcases plain_or_quote piece with hplain | ⟨lead, quote, rest, rfl, hlead⟩
    · exact .inl ⟨piece, .plain hplain, opening_of_plain hplain done⟩
    · by_cases hlast : rest.getLast? = some quote.char
      · obtain ⟨phrase, rfl⟩ := List.getLast?_eq_some_iff.1 hlast
        exact .inl ⟨lead ++ phrase, glued_of_quotes hlead hdark,
          opening_of_quotes hlead quote phrase done⟩
      · exact .inr ⟨quote, lead ++ rest, begun_of_quote hlead hdark hlast,
          opening_of_open hlead hlast done⟩
  | inside quote text done =>
    by_cases hlast : piece.getLast? = some quote.char
    · obtain ⟨front, rfl⟩ := List.getLast?_eq_some_iff.1 hlast
      exact .inl ⟨text ++ ' ' :: front, Begun.close h hdark,
        continuing_of_quote quote text front done⟩
    · exact .inr ⟨quote, text ++ ' ' :: piece, Begun.goOn h hne hdark hlast,
        continuing_of_open hlast text done⟩

/-- **A scan gathers the pieces:** behind the words that were whole stand those of the pieces that
the state held and of the ones that are scanned. -/
theorem gathered_foldl {state : State} {group : List (List Char)} (h : state.Holds group)
    (hpieces : ∀ piece ∈ pieces, piece ≠ [] ∧ ' ' ∉ piece) :
    ∃ words, (pieces.foldl step state).words = state.whole.reverse ++ words ∧
      Gathered (group ++ pieces) words := by
  induction pieces generalizing state group with
  | nil =>
    cases state with
    | outside done =>
      obtain rfl : group = [] := h
      exact ⟨[], (List.append_nil _).symm, .nothing⟩
    | inside quote text done =>
      -- What there is of a phrase counts as the last word.
      refine ⟨[text], List.reverse_cons, ?_⟩
      rw [List.append_nil]
      exact .unfinished h
  | cons piece pieces ih =>
    obtain ⟨hne, hdark⟩ := hpieces piece List.mem_cons_self
    have hrest : ∀ other ∈ pieces, other ≠ [] ∧ ' ' ∉ other := fun other hmem =>
      hpieces other (List.mem_cons_of_mem piece hmem)
    rw [List.foldl_cons, List.append_cons]
    rcases step_cases h hne hdark with ⟨word, hword, hstep⟩ | ⟨quote, text, hopen, hstep⟩
    · obtain ⟨words, hwords, hgathered⟩ :=
        @ih (.outside (word :: state.whole)) [] rfl hrest
      refine ⟨word :: words, ?_, .word hword hgathered⟩
      rw [hstep, hwords, State.whole, List.reverse_cons, List.append_assoc]
      rfl
    · obtain ⟨words, hwords, hgathered⟩ :=
        @ih (.inside quote text state.whole) (group ++ [piece]) hopen hrest
      exact ⟨words, by rw [hstep, hwords, State.whole], hgathered⟩

/-- Pieces of an open phrase leave the scan in it. -/
theorem Begun.foldl_step {group : List (List Char)} (h : Begun quote group word)
    (hgroup : ∀ piece ∈ group, piece ≠ [] ∧ ' ' ∉ piece) (done : List (List Char)) :
    group.foldl step (.outside done) = .inside quote word done := by
  -- From the last piece on, for it is the last one that `Begun` tells from the others.
  induction group using List.reverseRecOn generalizing word with
  | nil => exact absurd rfl h.ne_nil
  | append_singleton group piece ih =>
    obtain ⟨hfront, hlast⟩ := List.forall_mem_append.1 hgroup
    obtain ⟨hne, hdark⟩ := hlast piece List.mem_cons_self
    rw [List.foldl_concat]
    rcases h.cases_concat hne hdark with
      ⟨rfl, lead, rest, rfl, hlead, hopen, rfl⟩ | ⟨text, hbegun, hopen, rfl⟩
    · exact opening_of_open hlead hopen done
    · rw [ih hbegun hfront]
      exact continuing_of_open hopen text done

/-- Pieces of a whole word leave the scan behind it. -/
theorem Glued.foldl_step {group : List (List Char)} (h : Glued group word)
    (hgroup : ∀ piece ∈ group, piece ≠ [] ∧ ' ' ∉ piece) (done : List (List Char)) :
    group.foldl step (.outside done) = .outside (word :: done) := by
  obtain ⟨front, piece, rfl⟩ := (List.eq_nil_or_concat' group).resolve_left h.ne_nil
  obtain ⟨hfront, hlast⟩ := List.forall_mem_append.1 hgroup
  obtain ⟨hne, hdark⟩ := hlast piece List.mem_cons_self
  rw [List.foldl_concat]
  rcases h.cases_concat hne hdark with
    ⟨rfl, rfl, hplain⟩ | ⟨rfl, quote, lead, phrase, rfl, hlead, rfl⟩ |
      ⟨quote, text, last, hbegun, rfl, rfl⟩
  · exact opening_of_plain hplain done
  · exact opening_of_quotes hlead quote phrase done
  · rw [hbegun.foldl_step hfront done]
    exact continuing_of_quote quote text last done

/-- **Pieces are gathered in one way:** whatever they are gathered to is what the scan makes of
them. -/
theorem Gathered.words_foldl (h : Gathered pieces words)
    (hpieces : ∀ piece ∈ pieces, piece ≠ [] ∧ ' ' ∉ piece) (done : List (List Char)) :
    (pieces.foldl step (.outside done)).words = done.reverse ++ words := by
  induction h generalizing done with
  | nothing => exact (List.append_nil _).symm
  | @word group pieces word words hword h ih =>
    obtain ⟨hgroup, hrest⟩ := List.forall_mem_append.1 hpieces
    rw [List.foldl_append, hword.foldl_step hgroup, ih hrest, List.reverse_cons,
      List.append_assoc, List.singleton_append]
  | unfinished h =>
    rw [h.foldl_step hpieces, State.words, List.reverse_cons]

/-- **The words of a command are what its pieces are gathered to.** -/
theorem gathered_iff (command : String) :
    Gathered (Text.words command.toList) words ↔ words = (wordsOf command).map String.toList := by
  have hpieces : ∀ piece ∈ Text.words command.toList, piece ≠ [] ∧ ' ' ∉ piece := by
    intro piece hpiece
    refine ⟨ne_nil_of_mem_words hpiece, fun hspace => ?_⟩
    exact absurd (Text.of_mem_words hpiece hspace).2 (by decide)
  have hscan : (wordsOf command).map String.toList
      = ((Text.words command.toList).foldl step (.outside [])).words := by
    have hid : String.toList ∘ String.ofList = id := funext fun _ => String.toList_ofList
    rw [wordsOf, List.map_map, hid, List.map_id]
    rfl
  rw [hscan]
  constructor
  · intro h
    exact (h.words_foldl hpieces []).symm
  · rintro rfl
    obtain ⟨words, hwords, hgathered⟩ :=
      @gathered_foldl (Text.words command.toList) (.outside []) [] rfl hpieces
    rw [hwords]
    exact hgathered

/-! ## What the words keep -/

theorem Begun.unquoted (h : Begun quote pieces word) : Unquoted (joined pieces) word := by
  obtain ⟨lead, rest, hjoined, -, -, -, -⟩ := h
  rw [hjoined]
  exact unquoted_between quote lead rest

theorem Glued.unquoted (h : Glued pieces word) : Unquoted (joined pieces) word := by
  cases h with
  | plain =>
    rw [joined_singleton]
    exact unquoted_refl word
  | phrase quote lead phrase hjoined =>
    rw [hjoined]
    have hlast := unquoted_between quote (lead ++ phrase) []
    rw [List.append_nil] at hlast
    refine (unquoted_between quote lead (phrase ++ [quote.char])).trans ?_
    rw [← List.append_assoc]
    exact hlast

theorem Gathered.nil_iff (h : Gathered pieces words) : words = [] ↔ pieces = [] := by
  cases h with
  | nothing => exact Iff.rfl
  | word hword =>
    refine iff_of_false (List.cons_ne_nil _ _) fun hnil => ?_
    exact hword.ne_nil (List.append_eq_nil_iff.1 hnil).1
  | unfinished h => exact iff_of_false (List.cons_ne_nil _ _) h.ne_nil

/-- **Nothing but quotes is lost:** the words with spaces in between are what is left of the
pieces. -/
theorem Gathered.unquoted (h : Gathered pieces words) :
    Unquoted (joined pieces) (joined words) := by
  induction h with
  | nothing => exact unquoted_refl _
  | @word group pieces word words hword h ih =>
    by_cases hwords : words = []
    · rw [hwords, h.nil_iff.1 hwords, List.append_nil, joined_singleton]
      exact hword.unquoted
    · have hpieces : pieces ≠ [] := fun hnil => hwords (h.nil_iff.2 hnil)
      rw [joined_cons hwords, joined_append hword.ne_nil hpieces]
      exact hword.unquoted.append ((unquoted_refl [' ']).append ih)
  | unfinished h =>
    rw [joined_singleton]
    exact h.unquoted

theorem quote_not_mem_joined (hplain : ∀ piece ∈ pieces, ∀ c ∈ piece, Quote.ofChar? c = none)
    (quote : Quote) : quote.char ∉ joined pieces := by
  intro hquote
  rcases mem_joined hquote with hspace | ⟨piece, hpiece, hc⟩
  · exact space_ne_quote quote hspace.symm
  · exact Quote.not_mem_of_plain (hplain piece hpiece) quote hc

/-- Pieces without quotes are words, for no phrase can be made of them. -/
theorem Gathered.eq_of_plain (h : Gathered pieces words)
    (hplain : ∀ piece ∈ pieces, ∀ c ∈ piece, Quote.ofChar? c = none) : words = pieces := by
  induction h with
  | nothing => rfl
  | @word group pieces word words hword h ih =>
    obtain ⟨hgroup, hrest⟩ := List.forall_mem_append.1 hplain
    cases hword with
    | plain => rw [ih hrest, List.singleton_append]
    | phrase quote lead phrase hjoined =>
      exact absurd (by simp [hjoined]) (quote_not_mem_joined hgroup quote)
  | @unfinished group quote word h =>
    obtain ⟨lead, rest, hjoined, -, -, -, -⟩ := h
    exact absurd (by simp [hjoined]) (quote_not_mem_joined hplain quote)

end Words

/-- **Making words of a command takes out quotes and nothing else.** The words are the only ones
that the pieces of the command can be gathered to: each is made of pieces that stand one behind the
other, of one without quotes, or of some without their first quote and without the next one of its
kind that ends a piece, if there is one. So with single spaces in between the words are what is left
of the pieces. Without quotes the words are the pieces; in any case they depend on the pieces alone,
and hold no white space but single spaces between pieces. -/
theorem wordsOf_takes_out_quotes (command : String) :
    (∀ words, Words.Gathered (Text.words command.toList) words ↔
      words = (wordsOf command).map String.toList) ∧
    Words.Unquoted (Words.joined (Text.words command.toList))
      (" ".intercalate (wordsOf command)).toList ∧
    ((∀ c ∈ command.toList, Quote.ofChar? c = none) →
      (wordsOf command).map String.toList = Text.words command.toList) ∧
    (∀ other : String, Text.words other.toList = Text.words command.toList →
      wordsOf other = wordsOf command) ∧
    ∀ word ∈ wordsOf command, ∀ c ∈ word.toList, Text.isWhite c = true → c = ' ' := by
  have hgathered := (Words.gathered_iff command).2 rfl
  have hunquoted := hgathered.unquoted
  refine ⟨fun _ => Words.gathered_iff command, ?_, fun hplain => ?_, fun other hother => ?_,
    fun word hword c hc hwhite => ?_⟩
  · rw [String.toList_intercalate]
    exact hunquoted
  · exact hgathered.eq_of_plain fun piece hpiece c hc =>
      hplain c (Text.of_mem_words hpiece hc).1
  · rw [wordsOf, wordsOf, Words.ofChars, Words.ofChars, Words.scan, Words.scan, hother]
  · have hmem : word.toList ∈ (wordsOf command).map String.toList := List.mem_map_of_mem hword
    have hjoined := hunquoted.sublist.mem (Words.mem_joined_of_mem hmem hc)
    rcases Words.mem_joined hjoined with hspace | ⟨piece, hpiece, hpc⟩
    · exact hspace
    · rw [(Text.of_mem_words hpiece hpc).2] at hwhite
      cases hwhite

/-- A phrase ends where a piece ends in its first quote; other quotes in it are kept. -/
example : wordsOf "a\"b\"c d\" 'e" = ["ab\"c d", "e"] := by decide +kernel

end LineShell
