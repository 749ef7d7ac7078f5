import LineShell.Alias
import LineShell.Proofs.Line.OnePiece
import LineShell.Proofs.Text.Lines
import LineShell.Proofs.Text.White
import Mathlib.Data.List.Infix
/-!
The format of alias files.

A file is described by its lines, each with the parts that it is written in (`Alias.Form`); what the
parts must not hold is part of the description. The description says what a line means, and reading
what is written gives just that (`readLine_written`): trimming stops at the first and the last
character that belongs to a part, the first equals sign is the one behind the name, and only the
quotes of a quoted value are taken off. As a line is read by itself, and the table takes the entries
one by one, a file is read as the last definition of every name (`parse_written`).
-/

set_option autoImplicit false

namespace LineShell

namespace Alias

/-! ## Lines as they are written -/

/-- White space between the parts of a line. -/
abbrev Gap := { text : List Char // Text.White text }

/-- A name that a line can define. -/
structure Label where
  text : List Char
  nonempty : text ≠ []
  dark : ∀ c ∈ text, Text.isWhite c = false
  unmarked : '=' ∉ text

/-- Whether a name can be told without the keyword in front: it starts no comment and is not the
keyword itself. -/
structure Label.Plain (label : Label) : Prop where
  comment : label.text.head? ≠ some '#'
  keyword : label.text ≠ "alias".toList

/-- A value as it is written: as it stands, or in a pair of quotes. -/
inductive Value where
  | plain (text : List Char) (trimmed : Text.Trimmed text)
      (bare : ∀ (quote : Quote) (inner : List Char), text ≠ quote.char :: (inner ++ [quote.char]))
  | quoted (quote : Quote) (text : List Char)

namespace Value

def written : Value → List Char
  | plain text _ _ => text
  | quoted quote text => quote.char :: (text ++ [quote.char])

/-- What a value is. -/
def text : Value → List Char
  | plain text _ _ => text
  | quoted _ text => text

end Value

/-- The keyword in front of a name, if it is there, with white space behind it. -/
def opening : Option Gap → List Char
  | none => []
  | some gap => keyword ++ gap.1

/-- **The forms of a line.** -/
inductive Form where
  | blank (gap : Gap)
  | comment (front : Gap) (text : List Char)
  /-- There is no equals sign. -/
  | unmarked (front : Gap) (first : Char) (rest : List Char) (dark : Text.isWhite first = false)
      (counts : first ≠ '#') (unmarked : '=' ∉ first :: rest)
  /-- There is nothing in front of the equals sign, but perhaps the keyword. -/
  | nameless (front : Gap) (lead : Option Gap) (rest : List Char)
  | definition (front : Gap) (lead : Option Gap) (label : Label) (before behind : Gap)
      (value : Value) (back : Gap) (plain : lead = none → label.Plain)

namespace Form

def written : Form → List Char
  | blank gap => gap.1
  | comment front text => front.1 ++ '#' :: text
  | unmarked front first rest _ _ _ => front.1 ++ first :: rest
  | nameless front lead rest => front.1 ++ (opening lead ++ '=' :: rest)
  | definition front lead label before behind value back _ =>
    front.1 ++ (opening lead ++ (label.text ++ before.1 ++
      '=' :: (behind.1 ++ value.written ++ back.1)))

/-- What a line means. -/
def entry : Form → Entry
  | blank _ => .nothing
  | comment _ _ => .nothing
  | unmarked .. => .malformed
  | nameless .. => .malformed
  | definition _ _ label _ _ value _ _ => .definition label.text value.text

end Form

/-- **A line of an alias file.** What ends it is no part of it, but a carriage return in front of
that is white space at its end. -/
structure Line where
  form : Form
  single : '\n' ∉ form.written

/-- An alias file: its lines with line feeds between them. Behind a last line feed there is one
more line, which is blank. -/
def fileText (file : List Line) : String :=
  String.ofList (['\n'].intercalate (file.map fun line => line.form.written))

/-- The value that an entry gives to a name. -/
def Entry.value? (name : String) : Entry → Option String
  | .definition label value =>
    if name = String.ofList label then some (String.ofList value) else none
  | _ => none

/-! ## Reading a value -/

theorem unquote_quoted (quote : Quote) (text : List Char) :
    unquote (quote.char :: (text ++ [quote.char])) = text := by
  have hend : Words.dropEnd? quote.char (text ++ [quote.char]) = some text :=
    Words.dropEnd?_eq_some_iff.2 rfl
  cases quote with
  | single => simp [unquote, hend]
  | double =>
    have hother : Quote.double.char ≠ Quote.single.char := by decide
    simp [unquote, hend, hother]

theorem unquote_of_bare {text : List Char}
    (h : ∀ (quote : Quote) (inner : List Char), text ≠ quote.char :: (inner ++ [quote.char])) :
    unquote text = text := by
  cases text with
  | nil => rfl
  | cons c rest =>
    have hnone (quote : Quote) :
        (if c = quote.char then Words.dropEnd? quote.char rest else none) = none := by
      split
      · next hc =>
        rw [Option.eq_none_iff_forall_ne_some]
        intro inner hinner
        exact h quote inner (by rw [hc, Words.dropEnd?_eq_some_iff.1 hinner])
      · rfl
    simp [unquote, hnone]

namespace Value

theorem unquote_written (value : Value) : unquote value.written = value.text := by
  cases value with
  | plain text trimmed bare => exact unquote_of_bare bare
  | quoted quote text => exact unquote_quoted quote text

/-- White space at either end of what is written can be told from it. -/
theorem trimmed_written (value : Value) : Text.Trimmed value.written := by
  cases value with
  | plain text trimmed bare => exact trimmed
  | quoted quote text =>
    have hquote : Text.isWhite quote.char = false := by cases quote <;> decide
    have hsolid : Text.Solid [quote.char] :=
      ⟨⟨by simp [hquote], by simp [hquote]⟩, List.cons_ne_nil _ _⟩
    exact (hsolid.append text hsolid).toTrimmed

end Value

/-! ## Reading a line -/

theorem isWhite_mark : Text.isWhite '=' = false := by decide

theorem cutAt?_of_not_mem {text : List Char} (h : '=' ∉ text) : Text.cutAt? '=' text = none := by
  rw [Option.eq_none_iff_forall_ne_some]
  rintro ⟨before, behind⟩ hcut
  exact h (by simp [(Text.cutAt?_eq_some_iff.1 hcut).1])

/-- An equals sign is no part of the keyword. -/
theorem keyword_prefix_of_marked {label rest : List Char} (h : keyword <+: label ++ '=' :: rest) :
    keyword <+: label := by
  obtain ⟨behind, hbehind⟩ := h
  rcases List.append_eq_append_iff.1 hbehind with ⟨more, hlabel, -⟩ | ⟨more, hkeyword, hmark⟩
  · exact ⟨more, hlabel.symm⟩
  · cases more with
    | nil => exact ⟨[], by simpa using hkeyword⟩
    | cons c more =>
      have hmem : '=' ∈ keyword := by
        rw [hkeyword, (List.cons.inj hmark).1]
        simp
      exact absurd hmem (by decide)

/-- The keyword ends at its white space, so it is found only where it is written: a name that can
be told without it does not start with it. -/
theorem not_keyword_prefix {label : Label} (h : label.Plain) (before : Gap) :
    ¬ keyword <+: label.text ++ before.1 := by
  rintro ⟨behind, hbehind⟩
  have hword : ∀ c ∈ "alias".toList, Text.isWhite c = false := by
    have hall : "alias".toList.all (Text.isWhite · == false) = true := by decide
    simpa only [List.all_eq_true, beq_iff_eq] using hall
  have hsplit : "alias".toList ++ ' ' :: behind = label.text ++ before.1 := hbehind
  rcases List.append_eq_append_iff.1 hsplit with ⟨more, hlabel, hrest⟩ | ⟨more, hlabel, hrest⟩
  · -- The name goes on where the keyword has its white space.
    cases more with
    | nil => exact h.keyword (by simpa using hlabel)
    | cons c more =>
      have hdark := label.dark ' ' (by rw [hlabel, (List.cons.inj hrest).1]; simp)
      revert hdark
      decide
  · -- The name ends within the keyword, where no white space stands.
    cases more with
    | nil => exact h.keyword (by simpa using hlabel.symm)
    | cons c more =>
      have hdark := hword c (by rw [hlabel]; simp)
      have hwhite := before.2 c (by rw [hrest]; simp)
      rw [hdark] at hwhite
      cases hwhite

theorem dropKeyword_opening {lead : Option Gap} {text : List Char}
    (hfirst : ∀ c, text.head? = some c → Text.isWhite c = false)
    (hplain : lead = none → ¬ keyword <+: text) :
    dropKeyword (opening lead ++ text) = text := by
  unfold dropKeyword
  cases lead with
  | none =>
    have hnone : keyword.isPrefixOf? text = none := by
      rw [Option.eq_none_iff_forall_ne_some]
      intro rest hrest
      exact hplain rfl ⟨rest, List.isPrefixOf?_eq_some_iff_append_eq.1 hrest⟩
    rw [opening, List.nil_append, hnone]
    exact Text.trimStart_of_first hfirst
  | some gap =>
    have hsome : keyword.isPrefixOf? (keyword ++ gap.1 ++ text) = some (gap.1 ++ text) :=
      List.isPrefixOf?_eq_some_iff_append_eq.2 (List.append_assoc _ _ _).symm
    rw [opening, hsome, Option.getD_some, Text.trimStart_of_white gap.2]
    exact Text.trimStart_of_first hfirst

theorem dropKeyword_sublist (text : List Char) : (dropKeyword text).Sublist text := by
  refine (Text.dropWhile_sublist _).trans ?_
  cases hprefix : keyword.isPrefixOf? text with
  | none => exact List.Sublist.refl text
  | some rest =>
    rw [← List.isPrefixOf?_eq_some_iff_append_eq.1 hprefix]
    exact List.sublist_append_right keyword rest

/-- A line that counts is read behind the keyword. -/
theorem readLine_of_trim {line text : List Char} (htrim : Text.trim line = text)
    (hnonempty : text ≠ []) (hcounts : text.head? ≠ some '#') :
    readLine line = match Text.cutAt? '=' (dropKeyword text) with
      | none => .malformed
      | some (label, value) =>
        if (Text.trim label).isEmpty then .malformed
        else .definition (Text.trim label) (unquote (Text.trim value)) := by
  subst htrim
  have hcond : ¬ ((Text.trim line).isEmpty || (Text.trim line).head? == some '#') = true := by
    rw [Bool.or_eq_true, List.isEmpty_iff, beq_iff_eq]
    exact not_or.2 ⟨hnonempty, hcounts⟩
  exact if_neg hcond

/-- The keyword starts no comment. -/
theorem head?_opening {lead : Option Gap} {label rest : List Char}
    (hlabel : lead = none → label.head? ≠ some '#') :
    (opening lead ++ (label ++ '=' :: rest)).head? ≠ some '#' := by
  cases lead with
  | none =>
    have hcomment := hlabel rfl
    cases label <;> simp_all [opening]
  | some gap =>
    have hfirst : keyword.head? = some 'a' := by decide
    rw [opening, List.append_assoc, List.head?_append, hfirst, Option.some_or]
    decide

/-- **A line with an equals sign** is told by what stands at its two sides. -/
theorem readLine_marked (front : Gap) {lead : Option Gap} {label : List Char} (rest : List Char)
    (hfirst : ∀ c, label.head? = some c → Text.isWhite c = false) (hmark : '=' ∉ label)
    (hcomment : lead = none → label.head? ≠ some '#')
    (hkeyword : lead = none → ¬ keyword <+: label) :
    readLine (front.1 ++ (opening lead ++ (label ++ '=' :: rest)))
      = if (Text.trim label).isEmpty then .malformed
        else .definition (Text.trim label) (unquote (Text.trim rest)) := by
  -- Trimming ends at the equals sign at the latest, so it reaches the two sides apart.
  have htrim : Text.trim (front.1 ++ (opening lead ++ (label ++ '=' :: rest)))
      = opening lead ++ (label ++ '=' :: Text.trimEnd rest) := by
    rw [← List.append_assoc (opening lead), Text.trim_append_cons front.2 _ isWhite_mark,
      List.append_assoc]
    cases lead with
    | none => exact hfirst
    | some gap =>
      intro c hc
      obtain rfl : 'a' = c := Option.some.inj hc
      decide
  have hdrop : dropKeyword (opening lead ++ (label ++ '=' :: Text.trimEnd rest))
      = label ++ '=' :: Text.trimEnd rest := by
    refine dropKeyword_opening (fun c hc => ?_) fun hnone hprefix =>
      hkeyword hnone (keyword_prefix_of_marked hprefix)
    cases label with
    | nil =>
      obtain rfl : '=' = c := Option.some.inj hc
      exact isWhite_mark
    | cons d label => exact hfirst c hc
  have hcut : Text.cutAt? '=' (label ++ '=' :: Text.trimEnd rest)
      = some (label, Text.trimEnd rest) := Text.cutAt?_eq_some_iff.2 ⟨rfl, hmark⟩
  rw [readLine_of_trim htrim (by simp) (head?_opening hcomment), hdrop, hcut]
  dsimp only
  rw [Text.trim_trimEnd]

/-- **A line is read back** as what it means. -/
theorem readLine_written (form : Form) : readLine form.written = form.entry := by
  cases form with
  | blank gap =>
    have htrim : Text.trim gap.1 = [] := by
      simpa using Text.trim_append_white gap.2 []
    unfold readLine
    rw [Form.written, htrim]
    rfl
  | comment front text =>
    have htrim : Text.trim (front.1 ++ '#' :: text) = '#' :: Text.trimEnd text :=
      @Text.trim_append_cons _ [] _ front.2 (by simp) (by decide) text
    unfold readLine
    rw [Form.written, htrim]
    rfl
  | unmarked front first rest dark counts unmarked =>
    have htrim : Text.trim (front.1 ++ first :: rest) = first :: Text.trimEnd rest :=
      @Text.trim_append_cons _ [] _ front.2 (by simp) dark rest
    have hsublist : (dropKeyword (first :: Text.trimEnd rest)).Sublist (first :: rest) :=
      (dropKeyword_sublist _).trans ((Text.trimEnd_sublist rest).cons_cons first)
    have hmark : '=' ∉ dropKeyword (first :: Text.trimEnd rest) := fun hmem =>
      unmarked (hsublist.mem hmem)
    rw [Form.written, readLine_of_trim htrim (by simp) (by simpa using counts),
      cutAt?_of_not_mem hmark]
    rfl
  | nameless front lead rest =>
    exact @readLine_marked front lead [] rest (by simp) (by simp) (by simp) fun _ => by decide
  | definition front lead label before behind value back plain =>
    have hlabel : Text.trim (label.text ++ before.1) = label.text := by
      rw [Text.trim_append_white before.2]
      exact Text.trim_of_trimmed ⟨fun c hc => label.dark c (List.mem_of_head? hc),
        fun c hc => label.dark c (List.mem_of_getLast? hc)⟩
    have hvalue : unquote (Text.trim (behind.1 ++ value.written ++ back.1)) = value.text := by
      rw [Text.trim_white_append behind.2 value.trimmed_written back.2, value.unquote_written]
    have hfirst : ∀ c, (label.text ++ before.1).head? = some c → Text.isWhite c = false := by
      intro c hc
      obtain ⟨d, rest, hd⟩ := List.exists_cons_of_ne_nil label.nonempty
      rw [hd, List.cons_append, List.head?_cons, Option.some.injEq] at hc
      exact label.dark c (by rw [hd, hc]; exact List.mem_cons_self)
    have hmark : '=' ∉ label.text ++ before.1 := by
      rw [List.mem_append, not_or]
      refine ⟨label.unmarked, fun hmem => ?_⟩
      have hwhite := before.2 _ hmem
      rw [isWhite_mark] at hwhite
      cases hwhite
    have hcomment : lead = none → (label.text ++ before.1).head? ≠ some '#' := by
      intro hnone
      rw [List.head?_append_of_ne_nil _ label.nonempty]
      exact (plain hnone).comment
    rw [Form.written, readLine_marked front _ hfirst hmark hcomment fun hnone =>
      not_keyword_prefix (plain hnone) before, hlabel, hvalue,
      if_neg (by simpa using label.nonempty)]
    rfl

/-- The keyword can be told at the start of a text. -/
theorem exists_opening {label : List Char}
    (hfirst : ∀ c, label.head? = some c → Text.isWhite c = false) :
    ∃ lead name, label = opening lead ++ name ∧
      (∀ c, name.head? = some c → Text.isWhite c = false) ∧
      (lead = none → ¬ keyword <+: name) := by
  by_cases hkeyword : keyword <+: label
  · obtain ⟨rest, rfl⟩ := hkeyword
    refine ⟨some ⟨rest.takeWhile Text.isWhite, fun c hc => List.mem_takeWhile_imp hc⟩,
      Text.trimStart rest, ?_, Text.first_trimStart rest, nofun⟩
    rw [opening, List.append_assoc, Text.trimStart, List.takeWhile_append_dropWhile]
  · exact ⟨none, label, rfl, hfirst, fun _ => hkeyword⟩

/-- **Every line that defines nothing has a form,** so no malformed line is left out. -/
theorem exists_form {text : List Char}
    (h : ∀ label value, readLine text ≠ .definition label value) :
    ∃ form : Form, form.written = text := by
  obtain ⟨front, rest, hfirst, rfl⟩ : ∃ (front : Gap) (rest : List Char),
      (∀ c, rest.head? = some c → Text.isWhite c = false) ∧ front.1 ++ rest = text :=
    ⟨⟨text.takeWhile Text.isWhite, fun c hc => List.mem_takeWhile_imp hc⟩, Text.trimStart text,
      Text.first_trimStart text, List.takeWhile_append_dropWhile⟩
  cases rest with
  | nil => exact ⟨.blank front, (List.append_nil _).symm⟩
  | cons c rest =>
    have hdark : Text.isWhite c = false := hfirst c rfl
    by_cases hcomment : c = '#'
    · exact ⟨.comment front rest, by rw [Form.written, hcomment]⟩
    by_cases hmark : '=' ∈ c :: rest
    · -- What stands in front of the equals sign is nothing, or the keyword with white space.
      obtain ⟨label, value, hsplit, hlabel⟩ := List.eq_append_cons_of_mem hmark
      rw [hsplit] at h hfirst ⊢
      obtain ⟨lead, name, rfl, hname, hkeyword⟩ := @exists_opening label fun d hd =>
        hfirst d (by rw [List.head?_append, hd, Option.some_or])
      have hunmarked : '=' ∉ name := fun hmem => hlabel (List.mem_append_right _ hmem)
      by_cases hempty : name = []
      · exact ⟨.nameless front lead value, by rw [Form.written, hempty, List.append_nil]⟩
      · have hstarts : lead = none → name.head? ≠ some '#' := by
          rintro rfl hhead
          have hsame := congrArg List.head? hsplit
          rw [opening, List.nil_append, List.head?_append_of_ne_nil _ hempty, hhead] at hsame
          exact hcomment (Option.some.inj hsame)
        have hread := readLine_marked front value hname hunmarked hstarts hkeyword
        rw [← List.append_assoc (opening lead), if_neg] at hread
        · exact absurd hread (h _ _)
        · obtain ⟨d, more, rfl⟩ := List.exists_cons_of_ne_nil hempty
          have htrim := @Text.trim_append_cons [] [] d Text.white_nil (by simp) (hname d rfl) more
          simp only [List.nil_append] at htrim
          simp [htrim]
    · exact ⟨.unmarked front c rest hdark hcomment hmark, rfl⟩

/-! ## Reading a file -/

/-- A carriage return at the end of a line changes nothing. -/
theorem readLine_dropReturn (line : List Char) :
    readLine (Text.dropReturn line) = readLine line := by
  unfold Text.dropReturn
  split
  · next hlast =>
    obtain ⟨front, rfl⟩ := List.getLast?_eq_some_iff.1 hlast
    have htrim : Text.trim (front ++ ['\r']) = Text.trim front :=
      Text.trim_append_white (by decide) front
    unfold readLine
    rw [List.dropLast_concat, htrim]
  · rfl

/-- Of the texts between line feeds only an empty last one is no line, and that means nothing. -/
theorem map_readLine_terminated (texts : List (List Char)) :
    texts.map readLine = (Text.terminated texts).map readLine ∨
      texts.map readLine = (Text.terminated texts).map readLine ++ [.nothing] := by
  induction texts with
  | nil => exact .inl rfl
  | cons text texts ih =>
    cases texts with
    | nil =>
      by_cases hempty : text = []
      · subst hempty
        exact .inr rfl
      · simp [Text.terminated, hempty]
    | cons next texts =>
      have hnext : Text.terminated (text :: next :: texts)
          = Text.dropReturn text :: Text.terminated (next :: texts) := by
        simp [Text.terminated]
      rcases ih with ih | ih
      · left
        rw [List.map_cons, ih, hnext, List.map_cons, readLine_dropReturn]
      · right
        rw [List.map_cons, ih, hnext, List.map_cons, readLine_dropReturn, List.cons_append]

/-- **The entries of a file** are what its lines mean; a blank last line may be missing. -/
theorem entriesOf_fileText (file : List Line) :
    file.map (fun line => line.form.entry) = entriesOf (fileText file) ∨
      file.map (fun line => line.form.entry) = entriesOf (fileText file) ++ [.nothing] := by
  by_cases hfile : file = []
  · subst hfile
    exact .inl rfl
  · have hsplit : (['\n'].intercalate (file.map fun line => line.form.written)).splitOn '\n'
        = file.map fun line => line.form.written := by
      refine List.splitOn_intercalate _ (fun text hmem => ?_) (by simpa using hfile)
      obtain ⟨line, -, rfl⟩ := List.mem_map.1 hmem
      exact line.single
    have hentries : (file.map fun line => line.form.written).map readLine
        = file.map fun line => line.form.entry := by
      rw [List.map_map]
      exact List.map_congr_left fun line _ => readLine_written line.form
    have hcases := map_readLine_terminated (file.map fun line => line.form.written)
    rw [hentries] at hcases
    unfold entriesOf fileText Text.lines
    rwa [String.toList_ofList, hsplit]

end Alias

namespace AliasTable

/-- **The table of some entries** has the last value that one of them gives to a name. -/
theorem get?_foldl_add (entries : List Alias.Entry) (name : String) :
    (entries.foldl add .empty).get? name = entries.reverse.findSome? (Alias.Entry.value? name) := by
  induction entries using List.reverseRecOn with
  | nil => rfl
  | append_singleton entries entry ih =>
    rw [List.foldl_append, List.foldl_cons, List.foldl_nil, List.reverse_concat,
      List.findSome?_cons, ← ih]
    cases entry with
    | nothing => rfl
    | malformed => rfl
    | definition label value =>
      rw [add, Bindings.get?_insert, Alias.Entry.value?]
      split <;> rfl

end AliasTable

namespace Alias

/-- **An alias file is read back exactly.** A name has the value that the last line to define it
gives it, and no other name has one; the lines that are malformed are just those that are reported
as such, by their numbers. -/
theorem parse_written (file : List Line) :
    (∀ name, (AliasTable.parse (fileText file)).get? name
      = file.reverse.findSome? fun line => line.form.entry.value? name) ∧
    AliasTable.malformedLines (fileText file)
      = (file.zipIdx 1).filterMap fun (line, number) =>
          if line.form.entry = .malformed then some number else none := by
  have hentries := entriesOf_fileText file
  constructor
  · intro name
    have hadd : (entriesOf (fileText file)).foldl AliasTable.add .empty
        = (file.map fun line => line.form.entry).foldl AliasTable.add .empty := by
      rcases hentries with hentries | hentries
      · rw [hentries]
      · have hnothing (table : AliasTable) : table.add .nothing = table := rfl
        rw [hentries, List.foldl_concat, hnothing]
    rw [AliasTable.parse, hadd, AliasTable.get?_foldl_add, ← List.map_reverse, List.findSome?_map]
    rfl
  · have hnumbers : (file.zipIdx 1).filterMap (fun (line, number) =>
        if line.form.entry = .malformed then some number else none)
        = ((file.map fun line => line.form.entry).zipIdx 1).filterMap fun numbered =>
          if numbered.1 = .malformed then some numbered.2 else none := by
      rw [List.zipIdx_map, List.filterMap_map]
      rfl
    rw [hnumbers, AliasTable.malformedLines]
    rcases hentries with hentries | hentries
    · rw [hentries]
    · rw [hentries, List.zipIdx_append, List.filterMap_append]
      simp

/-- The last definition counts, and only the outer quotes are taken off. -/
example : (AliasTable.parse "alias l = 'ls'\nl=\"a='b'\"\r\n").get? "l" = some "a='b'" ∧
    AliasTable.malformedLines " #l=x\n=x\n" = [2] := by
  decide

end Alias

end LineShell
