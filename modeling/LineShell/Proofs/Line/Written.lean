import LineShell.Proofs.Line.OnePiece
import LineShell.Proofs.Line.Scanning
/-!
Lines as they are written, and the words that come out of them.

A line is written from items: plain words, and phrases in quotes with a plain word in front
(`Written.Item`). White space stands between the items of a command and around the separators; a
comment may stand at the end (`Written.Layout`). Whatever is written, the line splits into its
commands and each of them into the values of its items (`Written.wordsOf_commandsOf_finishLine`).
-/

set_option autoImplicit false

namespace LineShell

namespace Written

/-! ## What is written -/

/-- A text of characters that are neither white nor a quote, a separator or a comment mark. -/
def Bare (text : List Char) : Prop :=
  ∀ c ∈ text, Text.isWhite c = false ∧ Quote.ofChar? c = none ∧ c ≠ Line.separator ∧
    c ≠ Line.commentMark

instance (text : List Char) : Decidable (Bare text) := List.decidableBAll _ text

/-- A text that may stand between two quotes. The other quote may occur in it, and so may separators
and comment marks; all its white space is single spaces. -/
structure Phrase (quote : Quote) (text : List Char) : Prop where
  unquoted : quote.char ∉ text
  spaces : ∀ c ∈ text, Text.isWhite c → c = ' '
  single : ¬ [' ', ' '] <:+: text

/-- **An item:** a plain word, or a phrase in quotes behind what may be empty. -/
inductive Item where
  | plain (word : List Char) (nonempty : word ≠ []) (bare : Bare word)
  | quoted (lead : List Char) (quote : Quote) (phrase : List Char) (bare : Bare lead)
    (fits : Phrase quote phrase)

namespace Item

/-- An item as it is written. -/
def text : Item → List Char
  | plain word .. => word
  | quoted lead quote phrase .. => lead ++ quote.char :: (phrase ++ [quote.char])

/-- The word that an item stands for. -/
def value : Item → List Char
  | plain word .. => word
  | quoted lead _ phrase .. => lead ++ phrase

end Item

/-- White space, possibly none. -/
abbrev Blank := { text : List Char // Text.White text }

/-- White space that separates. -/
abbrev Gap := { text : List Char // Text.White text ∧ text ≠ [] }

/-- **A command:** items with white space between them. -/
structure Command where
  first : Item
  rest : List (Gap × Item)

namespace Command

/-- The items of a command, in order. -/
def items (command : Command) : List Item := command.first :: command.rest.map Prod.snd

/-- A command as it is written. -/
def text (command : Command) : List Char :=
  command.first.text ++ command.rest.flatMap fun (gap, item) => gap.1 ++ item.text

end Command

/-- What stands behind the first command of a line: separators with white space around them, each
but the last one with a command behind it. -/
def tail : List (Blank × Blank × Command) → Option Blank → List Char
  | [], none => []
  | [], some blank => blank.1 ++ [Line.separator]
  | (before, behind, command) :: rest, ending =>
    before.1 ++ Line.separator :: (behind.1 ++ command.text ++ tail rest ending)

/-- **A line:** commands with separators between them, and possibly one more separator and a comment
at the end. -/
structure Layout where
  front : Blank
  first : Command
  rest : List (Blank × Blank × Command)
  /-- The white space before a separator at the end, if there is one. -/
  ending : Option Blank
  back : Blank
  comment : Option (List Char)

namespace Layout

/-- The commands of a line, in order. -/
def commands (line : Layout) : List Command :=
  line.first :: line.rest.map fun (_, _, command) => command

/-- A line without the white space and the comment around it. -/
def core (line : Layout) : List Char := line.first.text ++ tail line.rest line.ending

/-- A line as it is written. -/
def text (line : Layout) : List Char :=
  line.front.1 ++ line.core ++ line.back.1 ++
    (line.comment.map (Line.commentMark :: ·)).getD []

end Layout

/-! ## Characters -/

/-- A white character is no quote and no mark. -/
theorem plain_of_isWhite {c : Char} (h : Text.isWhite c) :
    Quote.ofChar? c = none ∧ c ≠ Line.separator ∧ c ≠ Line.commentMark := by
  have hne : ∀ d : Char, Text.isWhite d = false → c ≠ d := by
    rintro d hd rfl
    rw [h] at hd
    cases hd
  refine ⟨?_, hne _ (by decide), hne _ (by decide)⟩
  unfold Quote.ofChar?
  rw [if_neg (hne _ (by decide)), if_neg (hne _ (by decide))]

theorem isWhite_quote (quote : Quote) : Text.isWhite quote.char = false := by
  cases quote <;> decide

variable {mark : Char} {text : List Char}

/-- The marks that the two scans look for. -/
def IsMark (mark : Char) : Prop :=
  mark = Line.separator ∨ mark = Line.commentMark

theorem IsMark.no_quote (h : IsMark mark) : Quote.ofChar? mark = none := by
  rcases h with rfl | rfl <;> decide

theorem Bare.quiet (h : Bare text) (hmark : IsMark mark) : Line.Quiet mark text := by
  refine Line.quiet_of_plain fun c hc => ⟨(h c hc).2.1, ?_⟩
  rcases hmark with rfl | rfl
  · exact (h c hc).2.2.1
  · exact (h c hc).2.2.2

theorem quiet_of_white (h : Text.White text) (hmark : IsMark mark) :
    Line.Quiet mark text := by
  refine Line.quiet_of_plain fun c hc => ⟨(plain_of_isWhite (h c hc)).1, ?_⟩
  rcases hmark with rfl | rfl
  · exact (plain_of_isWhite (h c hc)).2.1
  · exact (plain_of_isWhite (h c hc)).2.2

/-! ## Items -/

namespace Item

theorem solid (item : Item) : Text.Solid item.text := by
  cases item with
  | plain word nonempty bare =>
    refine ⟨⟨fun c hc => ?_, fun c hc => ?_⟩, nonempty⟩
    · exact (bare c (List.mem_of_mem_head? hc)).1
    · exact (bare c (List.mem_of_mem_getLast? hc)).1
  | quoted lead quote phrase bare fits =>
    refine ⟨⟨fun c hc => ?_, fun c hc => ?_⟩, ?_⟩
    · cases lead with
      | nil =>
        cases hc
        exact isWhite_quote quote
      | cons d lead =>
        cases hc
        exact (bare c List.mem_cons_self).1
    · rw [text, ← List.cons_append, ← List.append_assoc, List.getLast?_concat] at hc
      cases hc
      exact isWhite_quote quote
    · exact List.append_ne_nil_of_right_ne_nil lead (List.cons_ne_nil _ _)

theorem quiet (item : Item) (hmark : IsMark mark) : Line.Quiet mark item.text := by
  cases item with
  | plain word nonempty bare => exact bare.quiet hmark
  | quoted lead quote phrase bare fits =>
    exact (bare.quiet hmark).append (Line.quiet_quoted hmark.no_quote fits.unquoted)

end Item

/-! ### Phrases -/

/-- A phrase is dark, or it is cut at its first space; no space follows that one. -/
theorem Phrase.cut {quote : Quote} {phrase : List Char} (h : Phrase quote phrase) :
    (∀ c ∈ phrase, Text.isWhite c = false) ∨ ∃ word rest, phrase = word ++ ' ' :: rest ∧
      (∀ c ∈ word, Text.isWhite c = false) ∧ rest.head? ≠ some ' ' ∧ Phrase quote rest := by
  by_cases hspace : ' ' ∈ phrase
  · right
    obtain ⟨word, rest, hphrase, hword⟩ := List.eq_append_cons_of_mem hspace
    refine ⟨word, rest, hphrase, ?_, ?_, ?_⟩
    · intro c hc
      by_contra hwhite
      have hmem : c ∈ phrase := by
        rw [hphrase]
        exact List.mem_append_left _ hc
      have hspace' : c = ' ' := h.spaces c hmem (by simpa using hwhite)
      exact hword (hspace' ▸ hc)
    · intro hhead
      obtain ⟨more, hmore⟩ := List.head?_eq_some_iff.1 hhead
      refine h.single ⟨word, more, ?_⟩
      rw [hphrase, hmore, List.append_assoc]
      rfl
    · have hsuffix : rest <:+ phrase := ⟨word ++ [' '], by rw [hphrase, List.append_assoc]; rfl⟩
      refine ⟨fun hmem => h.unquoted (hsuffix.subset hmem),
        fun c hc => h.spaces c (hsuffix.subset hc), fun hdouble => h.single ?_⟩
      exact hdouble.trans hsuffix.isInfix
  · left
    intro c hc
    by_contra hwhite
    have hspace' : c = ' ' := h.spaces c hc (by simpa using hwhite)
    exact hspace (hspace' ▸ hc)

/-- A text stays dark when a quote is put behind it. -/
theorem dark_concat {s : List Char} (h : ∀ c ∈ s, Text.isWhite c = false) (quote : Quote) :
    ∀ c ∈ s ++ [quote.char], Text.isWhite c = false := by
  intro c hc
  rcases List.mem_append.1 hc with hc | hc
  · exact h c hc
  · rw [List.mem_singleton.1 hc]
    exact isWhite_quote quote

/-- **The rest of a phrase** is glued to what there is of it, up to its quote. -/
theorem Phrase.read {quote : Quote} {phrase : List Char} (h : Phrase quote phrase)
    (hhead : phrase.head? ≠ some ' ') (current : List Char) (done : List (List Char)) :
    (Text.words (phrase ++ [quote.char])).foldl Words.step (.inside quote current done)
      = .outside ((current ++ ' ' :: phrase) :: done) := by
  induction hlength : phrase.length using Nat.strong_induction_on generalizing phrase current with
  | _ n ih =>
    rcases h.cut with hdark | ⟨word, rest, hphrase, hdark, hrest, hfits⟩
    · rw [Text.words_of_dark (List.concat_ne_nil _ _) (dark_concat hdark quote), List.foldl_cons,
        List.foldl_nil, Words.step, Words.continuing_of_quote]
    · -- The word in front of the space is no end of the phrase, for the quote is not in it.
      have hword : word ≠ [] := by
        rintro rfl
        exact hhead (by rw [hphrase]; rfl)
      have hopen : word.getLast? ≠ some quote.char := by
        intro hlast
        refine h.unquoted ?_
        rw [hphrase]
        exact List.mem_append_left _ (List.mem_of_getLast? hlast)
      have hshorter : rest.length < n := by
        rw [← hlength, hphrase, List.length_append, List.length_cons]
        omega
      have htext : phrase ++ [quote.char] = word ++ ' ' :: (rest ++ [quote.char]) := by
        rw [hphrase, List.append_assoc, List.cons_append]
      have hstep : Words.step (.inside quote current done) word
          = .inside quote (current ++ ' ' :: word) done :=
        Words.continuing_of_open hopen current done
      rw [htext, Text.words_append_white (by decide), Text.words_of_dark hword hdark,
        List.singleton_append, List.foldl_cons, hstep,
        ih rest.length hshorter hfits hrest _ rfl, hphrase, List.append_assoc, List.cons_append]

/-- **An item is read as its value.** -/
theorem Item.read (item : Item) (done : List (List Char)) :
    (Text.words item.text).foldl Words.step (.outside done) = .outside (item.value :: done) := by
  cases item with
  | plain word nonempty bare =>
    rw [text, value, Text.words_of_dark nonempty fun c hc => (bare c hc).1, List.foldl_cons,
      List.foldl_nil, Words.step, Words.opening_of_plain fun c hc => (bare c hc).2.1]
  | quoted lead quote phrase bare fits =>
    have hlead : ∀ c ∈ lead, Quote.ofChar? c = none := fun c hc => (bare c hc).2.1
    have hdark : ∀ {piece : List Char}, (∀ c ∈ piece, Text.isWhite c = false) →
        ∀ c ∈ lead ++ quote.char :: piece, Text.isWhite c = false := by
      intro piece hpiece c hc
      rcases List.mem_append.1 hc with hc | hc
      · exact (bare c hc).1
      · rcases List.mem_cons.1 hc with rfl | hc
        · exact isWhite_quote quote
        · exact hpiece c hc
    rcases fits.cut with hphrase | ⟨word, rest, hphrase, hword, hrest, hfits⟩
    · have hne : lead ++ quote.char :: (phrase ++ [quote.char]) ≠ [] :=
        List.append_ne_nil_of_right_ne_nil lead (List.cons_ne_nil _ _)
      rw [text, value, Text.words_of_dark hne (hdark (dark_concat hphrase quote)),
        List.foldl_cons, List.foldl_nil, Words.step, Words.opening_of_quotes hlead]
    · have hopen : word.getLast? ≠ some quote.char := by
        intro hlast
        refine fits.unquoted ?_
        rw [hphrase]
        exact List.mem_append_left _ (List.mem_of_getLast? hlast)
      have htext : lead ++ quote.char :: (phrase ++ [quote.char])
          = (lead ++ quote.char :: word) ++ ' ' :: (rest ++ [quote.char]) := by
        rw [hphrase, List.append_assoc, List.append_assoc, List.cons_append, List.cons_append]
      have hne : lead ++ quote.char :: word ≠ [] :=
        List.append_ne_nil_of_right_ne_nil lead (List.cons_ne_nil _ _)
      have hopening : Words.opening done (lead ++ quote.char :: word)
          = .inside quote (lead ++ word) done :=
        Words.opening_of_open hlead hopen done
      rw [text, value, htext, Text.words_append_white (by decide),
        Text.words_of_dark hne (hdark hword), List.singleton_append, List.foldl_cons, Words.step,
        hopening, hfits.read hrest, hphrase, List.append_assoc]

/-! ## Commands -/

namespace Command

/-- What stands behind the first item of a command. -/
def others (rest : List (Gap × Item)) : List Char :=
  rest.flatMap fun (gap, item) => gap.1 ++ item.text

theorem others_cons (gap : Gap) (item : Item) (rest : List (Gap × Item)) :
    others ((gap, item) :: rest) = gap.1 ++ item.text ++ others rest := rfl

theorem solid_others {s : List Char} (h : Text.Solid s) (rest : List (Gap × Item)) :
    Text.Solid (s ++ others rest) := by
  induction rest generalizing s with
  | nil =>
    rw [others, List.flatMap_nil, List.append_nil]
    exact h
  | cons written rest ih =>
    rw [others_cons, ← List.append_assoc, ← List.append_assoc]
    exact ih (h.append _ written.2.solid)

theorem solid (command : Command) : Text.Solid command.text :=
  solid_others command.first.solid command.rest

theorem quiet (command : Command) (hmark : IsMark mark) : Line.Quiet mark command.text := by
  refine (command.first.quiet hmark).append ?_
  induction command.rest with
  | nil => exact Line.quiet_nil
  | cons written rest ih =>
    exact ((quiet_of_white written.1.2.1 hmark).append (written.2.quiet hmark)).append ih

theorem words_others (s : List Char) (rest : List (Gap × Item)) :
    Text.words (s ++ others rest)
      = Text.words s ++ rest.flatMap fun (_, item) => Text.words item.text := by
  induction rest generalizing s with
  | nil =>
    rw [others, List.flatMap_nil, List.flatMap_nil, List.append_nil, List.append_nil]
  | cons written rest ih =>
    have hgap := Text.words_append_gap written.1.2.1 written.1.2.2 s written.2.text
    rw [others_cons, ← List.append_assoc, ← List.append_assoc, ih, hgap, List.flatMap_cons,
      List.append_assoc]

theorem read_others (rest : List (Gap × Item)) (done : List (List Char)) :
    (rest.flatMap fun (_, item) => Text.words item.text).foldl Words.step (.outside done)
      = .outside ((rest.map fun (_, item) => item.value).reverse ++ done) := by
  induction rest generalizing done with
  | nil => rfl
  | cons written rest ih =>
    rw [List.flatMap_cons, List.foldl_append, written.2.read, ih, List.map_cons, List.reverse_cons,
      List.append_assoc, List.singleton_append]

/-- **A command is read as the values of its items,** whatever white space is around it. -/
theorem read (command : Command) {front back : List Char} (hfront : Text.White front)
    (hback : Text.White back) :
    Words.ofChars (front ++ command.text ++ back) = command.items.map Item.value := by
  have hwords : Text.words (front ++ command.text ++ back) = Text.words command.first.text
      ++ command.rest.flatMap fun (_, item) => Text.words item.text := by
    rw [Text.words_append_of_white hback, Text.words_white_append hfront]
    exact words_others command.first.text command.rest
  rw [Words.ofChars, Words.scan, hwords, List.foldl_append, command.first.read, read_others,
    Words.State.words, List.reverse_append, List.reverse_reverse, items, List.map_cons,
    List.map_map]
  rfl

end Command

/-! ## Lines -/

theorem solid_tail {s : List Char} (h : Text.Solid s) (rest : List (Blank × Blank × Command))
    (ending : Option Blank) : Text.Solid (s ++ tail rest ending) := by
  induction rest generalizing s with
  | nil =>
    cases ending with
    | none =>
      rw [tail, List.append_nil]
      exact h
    | some blank =>
      have hseparator : Text.Solid [Line.separator] := by
        refine ⟨⟨fun c hc => ?_, fun c hc => ?_⟩, List.cons_ne_nil _ _⟩
        · cases hc
          decide
        · cases hc
          decide
      rw [tail, ← List.append_assoc]
      exact h.append blank.1 hseparator
  | cons written rest ih =>
    obtain ⟨before, behind, command⟩ := written
    have hmore := h.append (before.1 ++ Line.separator :: behind.1) command.solid
    have htail : s ++ tail ((before, behind, command) :: rest) ending
        = s ++ (before.1 ++ Line.separator :: behind.1) ++ command.text ++ tail rest ending := by
      rw [tail]
      simp only [List.append_assoc, List.cons_append]
    rw [htail]
    exact ih hmore

theorem quiet_separator : Line.Quiet Line.commentMark [Line.separator] := by
  refine Line.quiet_of_plain fun c hc => ?_
  rw [List.mem_singleton.1 hc]
  decide

/-- The separators between commands are no comment marks. -/
theorem quiet_tail (rest : List (Blank × Blank × Command)) (ending : Option Blank) :
    Line.Quiet Line.commentMark (tail rest ending) := by
  have hmark : IsMark Line.commentMark := .inr rfl
  induction rest with
  | nil =>
    cases ending with
    | none => exact Line.quiet_nil
    | some blank => exact (quiet_of_white blank.2 hmark).append quiet_separator
  | cons written rest ih =>
    obtain ⟨before, behind, command⟩ := written
    have hbehind := ((quiet_of_white behind.2 hmark).append (command.quiet hmark)).append ih
    exact (quiet_of_white before.2 hmark).append (quiet_separator.append hbehind)

namespace Layout

theorem solid_core (line : Layout) : Text.Solid line.core :=
  solid_tail line.first.solid line.rest line.ending

theorem quiet_core (line : Layout) : Line.Quiet Line.commentMark line.core :=
  (line.first.quiet (.inr rfl)).append (quiet_tail line.rest line.ending)

/-- **Finishing a line** takes off what is around its commands. -/
theorem finished_text (line : Layout) : Line.finished line.text = line.core := by
  have hback := line.back.2
  have hcore := line.solid_core
  have hquiet := line.quiet_core
  have htrim : Text.trim (line.core ++ line.back.1) = line.core :=
    Text.trim_white_append Text.white_nil hcore.toTrimmed hback
  unfold Line.finished text
  cases line.comment with
  | none =>
    have huncommented : Line.uncommented none line.core = line.core := by
      have h := Line.uncommented_append hquiet.free []
      rwa [List.append_nil, Line.uncommented, List.append_nil] at h
    rw [Option.map_none, Option.getD_none, List.append_nil,
      Text.trim_white_append line.front.2 hcore.toTrimmed hback, huncommented,
      Text.trim_of_trimmed hcore.toTrimmed]
  | some comment =>
    have hquiet' : Line.Quiet Line.commentMark (line.core ++ line.back.1) :=
      hquiet.append (quiet_of_white hback (.inr rfl))
    have hfirst : Text.trimStart (line.core ++ line.back.1 ++ Line.commentMark :: comment)
        = line.core ++ line.back.1 ++ Line.commentMark :: comment := by
      obtain ⟨c, core, hcons⟩ := List.exists_cons_of_ne_nil hcore.nonempty
      rw [hcons] at hcore ⊢
      exact Text.trimStart_of_first fun d hd => hcore.first d hd
    have hwhole :
        Text.trim (line.front.1 ++ line.core ++ line.back.1 ++ Line.commentMark :: comment)
        = line.core ++ line.back.1 ++ Line.commentMark :: Text.trimEnd comment := by
      rw [Text.trim, List.append_assoc line.front.1, List.append_assoc line.front.1,
        Text.trimStart_of_white line.front.2, hfirst,
        Text.trimEnd_append_cons _ _ (by decide)]
    rw [Option.map_some, Option.getD_some, hwhole, Line.uncommented_append hquiet'.free,
      hquiet'.closed, Line.uncommented, if_pos ⟨rfl, rfl⟩, List.append_nil, htrim]

end Layout

/-! ### The commands of a line -/

section Segment

variable (command : Command) {front back : List Char}

theorem quiet_around (hfront : Text.White front) (hback : Text.White back) :
    Line.Quiet Line.separator (front ++ command.text ++ back) := by
  have hmark : IsMark Line.separator := .inl rfl
  exact ((quiet_of_white hfront hmark).append (command.quiet hmark)).append
    (quiet_of_white hback hmark)

theorem around_ne_nil : front ++ command.text ++ back ≠ [] :=
  List.append_ne_nil_of_left_ne_nil
    (List.append_ne_nil_of_right_ne_nil _ command.solid.nonempty) _

/-- The last segment of a line. -/
theorem segments_of_last (hfront : Text.White front) :
    Line.segments none (front ++ command.text) = [front ++ command.text] := by
  have hquiet := quiet_around command hfront Text.white_nil
  rw [List.append_nil] at hquiet
  have h := Line.segments_append hquiet.free []
  rwa [hquiet.closed, Line.segments, List.modifyHead_cons, List.append_nil] at h

/-- A segment with a separator behind it. -/
theorem segments_of_separator (hfront : Text.White front) (hback : Text.White back)
    (rest : List Char) : Line.segments none (front ++ command.text ++ back ++ Line.separator :: rest)
      = (front ++ command.text ++ back) :: Line.segments none rest := by
  have hquiet := quiet_around command hfront hback
  rw [Line.segments_append hquiet.free, hquiet.closed, Line.segments, if_pos ⟨rfl, rfl⟩,
    List.modifyHead_cons, List.append_nil]

end Segment

/-- **A line is cut at its separators.** Each segment is read as its command, and an empty segment
is behind a separator at the end. -/
theorem segments_tail (command : Command) {front : List Char} (hfront : Text.White front)
    (rest : List (Blank × Blank × Command)) (ending : Option Blank) :
    ∃ found, Line.segments none (front ++ command.text ++ tail rest ending)
        = found ++ (if ending.isSome then [[]] else []) ∧
      (∀ segment ∈ found, segment ≠ []) ∧
      found.map Words.ofChars = (command :: rest.map fun (_, _, command) => command).map
        fun command => command.items.map Item.value := by
  induction rest generalizing command front with
  | nil =>
    cases ending with
    | none =>
      have hne : front ++ command.text ++ [] ≠ [] := around_ne_nil command
      have hread := command.read hfront Text.white_nil
      rw [List.append_nil] at hne hread
      refine ⟨[front ++ command.text], ?_, ?_, ?_⟩
      · rw [tail, List.append_nil, segments_of_last command hfront]
        rfl
      · intro segment hsegment
        rwa [List.mem_singleton.1 hsegment]
      · rw [List.map_singleton, hread]
        rfl
    | some blank =>
      refine ⟨[front ++ command.text ++ blank.1], ?_, ?_, ?_⟩
      · rw [tail, ← List.append_assoc, segments_of_separator command hfront blank.2]
        rfl
      · intro segment hsegment
        rw [List.mem_singleton.1 hsegment]
        exact around_ne_nil command
      · rw [List.map_singleton, command.read hfront blank.2]
        rfl
  | cons written rest ih =>
    obtain ⟨before, behind, next⟩ := written
    obtain ⟨found, hsegments, hfound, hread⟩ := ih next behind.2
    refine ⟨(front ++ command.text ++ before.1) :: found, ?_, ?_, ?_⟩
    · rw [tail, ← List.append_assoc, segments_of_separator command hfront before.2, hsegments,
        List.cons_append]
    · intro segment hsegment
      rcases List.mem_cons.1 hsegment with rfl | hsegment
      · exact around_ne_nil command
      · exact hfound segment hsegment
    · rw [List.map_cons, hread, command.read hfront before.2]
      rfl

/-- No segment is lost when the empty one at the end is dropped. -/
theorem dropEmptyEnd_segments {found : List (List Char)} (h : ∀ segment ∈ found, segment ≠ [])
    (ends : Bool) : Line.dropEmptyEnd (found ++ (if ends then [[]] else [])) = found := by
  unfold Line.dropEmptyEnd
  cases ends with
  | true => rw [if_pos rfl, List.getLast?_concat, if_pos rfl, List.dropLast_concat]
  | false =>
    rw [if_neg Bool.false_ne_true, List.append_nil]
    exact if_neg fun hlast => h [] (List.mem_of_getLast? hlast) rfl

theorem Layout.read_core (line : Layout) : (Line.commands line.core).map Words.ofChars
    = line.commands.map fun command => command.items.map Item.value := by
  obtain ⟨found, hsegments, hfound, hread⟩ :=
    segments_tail line.first Text.white_nil line.rest line.ending
  have hcommands : Line.commands line.core = found := by
    have hall : ¬ found.all List.isEmpty = true := by
      intro hall
      cases found with
      | nil => cases hread
      | cons segment found =>
        have hempty := List.all_eq_true.1 hall segment List.mem_cons_self
        exact hfound segment List.mem_cons_self (List.isEmpty_iff.1 hempty)
    unfold Line.commands
    rw [Layout.core, ← List.nil_append line.first.text, hsegments, dropEmptyEnd_segments hfound]
    exact if_neg hall
  rw [hcommands, hread, Layout.commands]

/-- **What is quoted survives.** A line that is finished, split into commands and read word by word
has one command for each that was written, and the words of each are the values of its items. -/
theorem wordsOf_commandsOf_finishLine (line : Layout) :
    (commandsOf (finishLine (String.ofList line.text))).map wordsOf
      = line.commands.map fun command =>
          command.items.map fun item => String.ofList item.value := by
  have hwords : wordsOf ∘ String.ofList = List.map String.ofList ∘ Words.ofChars := by
    funext segment
    rw [Function.comp_apply, wordsOf, String.toList_ofList, Function.comp_apply]
  have hread := congrArg (List.map (List.map String.ofList)) line.read_core
  rw [List.map_map, List.map_map] at hread
  rw [finishLine, commandsOf, String.toList_ofList, String.toList_ofList, line.finished_text,
    List.map_map, hwords]
  refine hread.trans (List.map_congr_left fun command _ => ?_)
  exact List.map_map

/-- A phrase holds a separator, a comment mark, the other quote and a space at its end. -/
example : ∃ line : Layout, line.text = "say x=\"a; 'b' # \" ;ls; # bye".toList ∧
    line.commands.map (fun command => command.items.map Item.value)
      = [["say".toList, "x=a; 'b' # ".toList], ["ls".toList]] := by
  have hnone : Text.White [] := by decide
  have hspace : Text.White [' '] := by decide
  have hsay : Bare "say".toList := by decide
  have hlead : Bare "x=".toList := by decide
  have hls : Bare "ls".toList := by decide
  have hphrase : Phrase .double "a; 'b' # ".toList :=
    ⟨by decide, by simp [Text.isWhite, Text.whiteRanges], by simp [List.infix_cons_iff]⟩
  refine ⟨⟨⟨[], hnone⟩, ⟨.plain _ (by decide) hsay, [(⟨[' '], hspace, by decide⟩,
    .quoted _ .double _ hlead hphrase)]⟩, [(⟨[' '], hspace⟩, ⟨[], hnone⟩,
    ⟨.plain _ (by decide) hls, []⟩)], some ⟨[], hnone⟩, ⟨[' '], hspace⟩,
    some " bye".toList⟩, ?_, ?_⟩
  · rfl
  · rfl

end Written

end LineShell
