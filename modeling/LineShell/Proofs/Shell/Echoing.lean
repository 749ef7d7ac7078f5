import LineShell.Proofs.Shell.Starting
/-!
The words that `echo` prints.

Words without a dash in front are no options, but one of them is not read as a word either: `help`
asks for the help text as long as no other word stands in front of it (`Grammar.read_of_plain`). So
`echo` prints its words if the first one is not `help`, and its help text otherwise
(`Dispatch.dispatch_echo`).
-/

set_option autoImplicit false

namespace LineShell

/-! ## Words that are no options -/

namespace Grammar

variable {g : Grammar} {name : String}

/-- Once options have ended, a command that takes any number of words takes all there are. -/
theorem readOn_of_ended (hg : g.positional = .greedy name) {read : Arguments}
    (hended : read.ended = true) (words : List String) :
    g.readOn read words = .ok { read with words := read.words ++ words } := by
  induction words generalizing read with
  | nil => rw [readOn, List.append_nil]
  | cons word rest ih =>
    have htake : g.takeWord read word
        = .ok { read with words := read.words ++ [word], ended := true } := by
      rw [takeWord, hg]
    rw [readOn, hended, Bool.not_true, Bool.false_and, Bool.false_and, if_neg Bool.false_ne_true,
      if_neg Bool.false_ne_true, htake]
    dsimp only
    rw [ih rfl, List.append_assoc, List.singleton_append]

/-- **Words without a dash in front are read as they are,** but for `help` in front of all others:
it asks for help, however often it stands there. -/
theorem readOn_of_plain (hg : g.positional = .greedy name) {read : Arguments}
    (hread : read.ended = false) {words : List String}
    (hplain : ∀ word ∈ words, word.toList.head? ≠ some '-') : ∃ ended, g.readOn read words = .ok
      { read with
        help := read.help || words.head? == some "help"
        words := read.words ++ words.dropWhile (· == "help")
        ended } := by
  induction words generalizing read with
  | nil => exact ⟨read.ended, by rw [readOn]; simp⟩
  | cons word rest ih =>
    have hdash := hplain word (List.mem_cons_self ..)
    have hlong : word ≠ "--help" := by
      rintro rfl
      exact hdash (by decide)
    have hrest : ∀ other ∈ rest, other.toList.head? ≠ some '-' := fun other hmem =>
      hplain other (List.mem_cons_of_mem _ hmem)
    by_cases hhelp : word = "help"
    · subst hhelp
      obtain ⟨ended, hnext⟩ := @ih { read with help := true } hread hrest
      refine ⟨ended, ?_⟩
      rw [readOn, if_pos (by simp [hread]), hnext]
      simp
    · have htake : g.takeWord read word
          = .ok { read with words := read.words ++ [word], ended := true } := by
        rw [takeWord, hg]
      refine ⟨true, ?_⟩
      rw [readOn, if_neg (by simp [hlong, hhelp]), if_neg (by simpa [hread] using hdash), htake]
      dsimp only
      rw [readOn_of_ended hg rfl]
      simp [hhelp]

theorem read_of_plain (hg : g.positional = .greedy name) {words : List String}
    (hplain : ∀ word ∈ words, word.toList.head? ≠ some '-') : ∃ ended, g.read words = .ok
      ⟨words.head? == some "help", ended, [], words.dropWhile (· == "help")⟩ := by
  obtain ⟨ended, h⟩ := @readOn_of_plain g name hg .none rfl words hplain
  exact ⟨ended, by rw [read, h]; simp [Arguments.none]⟩

end Grammar

/-! ## What is printed -/

namespace Builtin

variable {p : Shell}

/-- What a builtin prints if it is asked for help. -/
def usage (b : Builtin) : String :=
  String.ofList (Text.trimEnd (Help.text b.name b.grammar).toList) ++ "\n"

theorem command_of_help (h : p.machine.screen.NeverFails) (b : Builtin) {arguments : List String}
    {read : Arguments} (hread : b.grammar.read arguments = .ok read) (hhelp : read.help = true) :
    b.command arguments p = .ok 0 { p with machine := p.machine.wrote b.usage } := by
  unfold command
  rw [hread]
  dsimp only
  rw [if_pos hhelp, tell_of_neverFails h]
  rfl

/-- The text of words with spaces in between. -/
def spaced (words : List String) : String := " ".intercalate words ++ "\n"

theorem run_print (h : p.machine.screen.NeverFails) (words : List String) :
    run (.print words true) p = .ok 0 { p with machine := p.machine.wrote (spaced words) } := by
  have hwrite : ShellM.write (spaced words) p
      = .ok () { p with machine := p.machine.wrote (spaced words) } := by
    unfold ShellM.write ShellM.onMachine
    rw [Effect.write_of_neverFails h]
  have hprint : printing (ShellM.write (spaced words)) p
      = .ok () { p with machine := p.machine.wrote (spaced words) } := by
    unfold printing EStateM.adaptExcept
    rw [hwrite]
  have hperform : perform (.print words true) p
      = .ok 0 { p with machine := p.machine.wrote (spaced words) } := bind_of_ok hprint
  exact run_of_ok hperform

/-- What `echo` prints for words of which none is an option. -/
def echoed (words : List String) : String :=
  if words.head? = some "help" then echo.usage else spaced words

theorem echoed_of_help {words : List String} (h : words.head? = some "help") :
    echoed words = echo.usage := if_pos h

theorem echoed_of_words {words : List String} (h : words.head? ≠ some "help") :
    echoed words = spaced words := if_neg h

theorem command_echo (h : p.machine.screen.NeverFails) {words : List String}
    (hplain : ∀ word ∈ words, word.toList.head? ≠ some '-') :
    echo.command words p = .ok 0 { p with machine := p.machine.wrote (echoed words) } := by
  obtain ⟨ended, hread⟩ := @Grammar.read_of_plain echo.grammar "words" rfl words hplain
  by_cases hhelp : words.head? = some "help"
  · rw [echoed_of_help hhelp]
    exact command_of_help h echo hread (by simpa using hhelp)
  · have hall : words.dropWhile (· == "help") = words := by
      cases words with
      | nil => rfl
      | cons word rest => simpa using hhelp
    have hnone : (words.head? == some "help") = false := by simpa using hhelp
    rw [hall, hnone] at hread
    rw [echoed_of_words hhelp]
    unfold command
    rw [hread]
    exact run_print h words

/-- Every help text starts in the same way. -/
theorem exists_usage_eq (b : Builtin) : ∃ rest, b.usage.toList = 'U' :: rest := by
  obtain ⟨rest, htext⟩ : ∃ rest, (Help.text b.name b.grammar).toList = 'U' :: rest := by
    unfold Help.text Help.lines
    simp [String.toList_intercalate, List.intercalate]
  have htrimmed := Text.trimEnd_append_cons [] rest (c := 'U') (by decide)
  rw [List.nil_append, List.nil_append] at htrimmed
  refine ⟨Text.trimEnd rest ++ "\n".toList, ?_⟩
  rw [usage, String.toList_append, String.toList_ofList, htext, htrimmed, List.cons_append]

/-- No help text is a list of words that starts with `help`. -/
theorem spaced_ne_usage (b : Builtin) {words : List String} (h : words.head? = some "help") :
    spaced words ≠ b.usage := by
  obtain ⟨rest, rfl⟩ : ∃ rest, words = "help" :: rest := List.head?_eq_some_iff.1 h
  obtain ⟨more, husage⟩ := b.exists_usage_eq
  have hspaced : (spaced ("help" :: rest)).toList.head? = some 'h' := by
    unfold spaced
    cases rest <;> simp [String.toList_intercalate, List.intercalate]
  intro heq
  rw [heq, husage, List.head?_cons] at hspaced
  exact absurd hspaced (by decide)

/-- The words are printed only where no help is asked for. -/
theorem echoed_eq_spaced_iff {words : List String} :
    echoed words = spaced words ↔ words.head? ≠ some "help" := by
  constructor
  · intro heq hhelp
    rw [echoed_of_help hhelp] at heq
    exact echo.spaced_ne_usage hhelp heq.symm
  · exact echoed_of_words

end Builtin

/-! ## The command -/

namespace Dispatch

open Builtin (spaced)

variable {setup : Setup} {p : Shell} {directory : Path} {words : List String}

/-- What is written is all that changes. -/
theorem exists_dispatch_echo (hbuiltins : setup.builtins = Builtin.table)
    (hscreen : p.machine.screen.NeverFails) (hdirectory : p.machine.currentDir = .ok directory)
    (halias : (aliasesIn p.machine directory).get? "echo" = none)
    (hplain : ∀ word ∈ words, word.toList.head? ≠ some '-') :
    ∃ q, dispatch setup ("echo" :: words) p
        = .ok (if p.environment.shouldExit then .exit else .builtin 0) q ∧ Calm p q ∧
      q.machine.screen.contents
        = p.machine.screen.contents ++ bytesOf (Builtin.echoed words) := by
  have hspliced : (aliasesIn p.machine directory).spliced ("echo" :: words)
      = Builtin.echo.name :: words := by
    simp [AliasTable.spliced, halias, Builtin.name]
  obtain ⟨p', hcalm, hsame, -, hdispatch⟩ :=
    exists_dispatch_eq_resolve hdirectory (by simp [exitWord]) hspliced
  have hready : p'.machine.screen.NeverFails := hsame ▸ hscreen
  have hshown : p'.machine.screen.contents = p.machine.screen.contents :=
    congrArg Screen.contents hsame
  have henvironment : p'.environment = p.environment := hcalm.environment
  have hcommand := Builtin.command_echo hready hplain
  -- Nothing but the screen and the journal has changed since the aliases were read.
  have hwrote : Calm p' { p' with machine := p'.machine.wrote (Builtin.echoed words) } :=
    ⟨rfl, rfl, rfl, rfl, rfl⟩
  refine ⟨_, ?_, trans_of Calm hcalm hwrote, ?_⟩
  · rw [hdispatch, resolve_of_builtin hbuiltins, runBuiltin_of_ok hcommand, henvironment]
  · rw [← hshown]
    exact Machine.contents_wrote hready _

/-- **`echo` prints its words,** with one space in between and a line feed behind them, if none of
them is an option and the first one is not `help`. If it is, `echo` prints its help text, which is
another one. -/
theorem dispatch_echo (hbuiltins : setup.builtins = Builtin.table)
    (hscreen : p.machine.screen.NeverFails) (hdirectory : p.machine.currentDir = .ok directory)
    (halias : (aliasesIn p.machine directory).get? "echo" = none)
    (hplain : ∀ word ∈ words, word.toList.head? ≠ some '-') :
    ∃ q, dispatch setup ("echo" :: words) p
        = .ok (if p.environment.shouldExit then .exit else .builtin 0) q ∧ Calm p q ∧
      (words.head? = some "help" →
        q.machine.screen.contents = p.machine.screen.contents ++ bytesOf Builtin.echo.usage) ∧
      (q.machine.screen.contents = p.machine.screen.contents ++ bytesOf (spaced words) ↔
        words.head? ≠ some "help") := by
  obtain ⟨q, hdispatch, hcalm, hcontents⟩ :=
    exists_dispatch_echo hbuiltins hscreen hdirectory halias hplain
  refine ⟨q, hdispatch, hcalm, fun hhelp => ?_, ?_⟩
  · rw [hcontents, Builtin.echoed_of_help hhelp]
  · rw [hcontents, List.append_cancel_left_eq, bytesOf_injective.eq_iff,
      Builtin.echoed_eq_spaced_iff]

/-! ### The word that asks for help -/

/-- A shell in the root directory of an empty file tree. -/
def emptyShell : Shell := ⟨.boot .empty, ⟨.ofList [], bytesOf "/", false⟩⟩

theorem alias_emptyShell : (aliasesIn emptyShell.machine (bytesOf "/")).get? "echo" = none := by
  decide

/-- Behind another word, `help` is printed. -/
theorem dispatch_echo_behind : ∃ q,
    dispatch obliging ["echo", "a", "help"] emptyShell = .ok (.builtin 0) q ∧
      q.machine.screen.contents = bytesOf "a help\n" := by
  obtain ⟨q, hdispatch, -, -, hwords⟩ := @dispatch_echo obliging emptyShell (bytesOf "/")
    ["a", "help"] rfl Screen.neverFails_unlimited rfl alias_emptyShell (by decide)
  exact ⟨q, hdispatch, hwords.2 (by decide)⟩

/-- **In front of all others it is not,** though it has no dash in front. -/
theorem dispatch_echo_help : emptyShell.machine.screen.NeverFails ∧
    emptyShell.machine.currentDir = .ok (bytesOf "/") ∧
    (aliasesIn emptyShell.machine (bytesOf "/")).get? "echo" = none ∧
    (∀ word ∈ ["help"], word.toList.head? ≠ some '-') ∧
    ∃ q, dispatch obliging ["echo", "help"] emptyShell = .ok (.builtin 0) q ∧
      q.machine.screen.contents ≠ emptyShell.machine.screen.contents ++ bytesOf "help\n" := by
  have hplain : ∀ word ∈ ["help"], word.toList.head? ≠ some '-' := by decide
  obtain ⟨q, hdispatch, -, hcontents⟩ := @exists_dispatch_echo obliging emptyShell (bytesOf "/")
    ["help"] rfl Screen.neverFails_unlimited rfl alias_emptyShell hplain
  refine ⟨Screen.neverFails_unlimited, rfl, alias_emptyShell, hplain, q, hdispatch, ?_⟩
  rw [hcontents, Ne, List.append_cancel_left_eq, bytesOf_injective.eq_iff]
  exact fun heq => absurd rfl (Builtin.echoed_eq_spaced_iff.1 heq)

end Dispatch

end LineShell
