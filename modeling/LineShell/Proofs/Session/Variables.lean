import LineShell.Proofs.Files.Canonical
import LineShell.Proofs.Session.Frame
import LineShell.Proofs.Terminal.Order
import LineShell.Proofs.Text.ByteOrder
import Mathlib.Data.List.Nodup
import Mathlib.Data.List.Perm.Basic
/-!
The variables, listed and read back.

`env` writes a line for each variable, in the order of the names. A variable can be told from its
line if its name has no equals sign, and the lines can be told from each other if there is no line
feed in them; a value may hold equals signs or be empty. So the listing says all there is to say
about the variables: set again from their lines, in whatever order, they are the same
(`Builtin.env_determines`).

A map is determined by its look-ups (`Bindings.ext_get?`), and entries with different names can be
put into it in any order (`Bindings.insertAll_of_perm`).
-/

set_option autoImplicit false

namespace LineShell

/-! ## Maps -/

namespace Bindings

variable {entries : List (String × String)} {name value : String} {m n : Bindings}

/-- Puts entries into a map, one after the other. -/
def insertAll (m : Bindings) (entries : List (String × String)) : Bindings :=
  entries.foldl (fun m entry => m.insert entry.1 entry.2) m

theorem nodup_names (m : Bindings) : (m.entries.map Prod.fst).Nodup := by
  rw [List.Nodup, List.pairwise_map]
  refine m.sorted.imp fun {a b} hlt heq => ?_
  rw [heq] at hlt
  exact String.lt_irrefl _ hlt

theorem lookup_eq_some_iff (hnodup : (entries.map Prod.fst).Nodup) :
    entries.lookup name = some value ↔ (name, value) ∈ entries :=
  ⟨FileTree.mem_of_lookup, FileTree.lookup_of_mem hnodup⟩

theorem mem_entries_iff : (name, value) ∈ m.entries ↔ m.get? name = some value :=
  (lookup_eq_some_iff m.nodup_names).symm

/-- **A map is determined by its look-ups.** -/
theorem ext_get? (h : ∀ name, m.get? name = n.get? name) : m = n := by
  have hmem : ∀ entry, entry ∈ m.entries ↔ entry ∈ n.entries := by
    rintro ⟨name, value⟩
    rw [mem_entries_iff, mem_entries_iff, h]
  have hperm : m.entries.Perm n.entries :=
    (List.perm_ext_iff_of_nodup (List.Nodup.of_map _ m.nodup_names)
      (List.Nodup.of_map _ n.nodup_names)).2 hmem
  have hentries : m.entries = n.entries := by
    refine List.Perm.eq_of_pairwise (fun a b _ _ hab hba => ?_) m.sorted n.sorted hperm
    exact absurd (String.lt_trans hab hba) (String.lt_irrefl _)
  cases m
  cases n
  congr

theorem get?_insertAll (hnodup : (entries.map Prod.fst).Nodup) (m : Bindings) (name : String) :
    (m.insertAll entries).get? name = (entries.lookup name).or (m.get? name) := by
  unfold insertAll
  induction entries generalizing m with
  | nil => rfl
  | cons entry entries ih =>
    obtain ⟨other, value⟩ := entry
    obtain ⟨hnew, hrest⟩ := List.nodup_cons.1 hnodup
    rw [List.foldl_cons, ih hrest, get?_insert, List.lookup_cons]
    by_cases hname : name = other
    · have hnone : entries.lookup name = none := by
        refine Option.eq_none_iff_forall_ne_some.2 fun found hfound => hnew ?_
        have hmem : name ∈ entries.map Prod.fst :=
          List.mem_map.2 ⟨(name, found), FileTree.mem_of_lookup hfound, rfl⟩
        rwa [hname] at hmem
      rw [if_pos hname, hnone, beq_iff_eq.2 hname]
      rfl
    · rw [if_neg hname, beq_eq_false_iff_ne.2 hname]

/-- **Entries with different names can be put into a map in any order.** -/
theorem insertAll_of_perm (hperm : entries.Perm m.entries) : empty.insertAll entries = m := by
  have hnodup : (entries.map Prod.fst).Nodup := (hperm.map Prod.fst).nodup_iff.2 m.nodup_names
  refine ext_get? fun name => Option.ext fun value => ?_
  rw [get?_insertAll hnodup, get?_empty, Option.or_none, lookup_eq_some_iff hnodup,
    hperm.mem_iff, mem_entries_iff]

end Bindings

/-! ## Lines of variables -/

/-- **A variable that can be told from its line,** and the line from others. -/
structure Listable (name value : String) : Prop where
  nonempty : name ≠ ""
  equals : '=' ∉ name.toList
  feed : '\n' ∉ name.toList ∧ '\n' ∉ value.toList

namespace Environment

open Builtin (variableLine)

variable {vars : List (String × String)} {lines : List String} {name value : String}

theorem toList_variableLine (name value : String) :
    (variableLine (name, value)).toList = name.toList ++ '=' :: value.toList := by
  rw [variableLine, String.toList_append, String.toList_append, List.append_assoc]
  rfl

/-- A line is the assignment of its variable. -/
theorem assign?_variableLine (h : Listable name value) (env : Environment) :
    env.assign? (variableLine (name, value)) = some (env.set name value) :=
  assign?_eq_some.2 ⟨name, value, rfl, h.nonempty, h.equals, rfl⟩

/-- **Lines of variables are assigned** one after the other, and none of them is refused. -/
theorem foldlM_assign? (hvars : ∀ var ∈ vars, Listable var.1 var.2) (env : Environment) :
    (vars.map variableLine).foldlM assign? env
      = some { env with vars := env.vars.insertAll vars } := by
  induction vars generalizing env with
  | nil => rfl
  | cons var vars ih =>
    obtain ⟨hvar, hrest⟩ := List.forall_mem_cons.1 hvars
    rw [List.map_cons, List.foldlM_cons, assign?_variableLine hvar]
    exact ih hrest (env.set var.1 var.2)

/-- **Set again from their lines,** in whatever order, variables are the same. -/
theorem foldlM_assign?_of_perm {m : Bindings} (hvars : ∀ var ∈ m.entries, Listable var.1 var.2)
    (hlines : lines.Perm (m.entries.map variableLine)) {env : Environment} (hempty : env.vars = ∅) :
    lines.foldlM assign? env = some { env with vars := m } := by
  obtain ⟨ordered, rfl, hordered⟩ :
      ∃ ordered, lines = List.map variableLine ordered ∧ ordered.Perm m.entries := by
    have hcomp := congrFun (congrFun (List.eq_map_comp_perm variableLine) lines) m.entries
    exact hcomp.mpr hlines
  have hsame : env.vars.insertAll ordered = m := by
    rw [hempty]
    exact Bindings.insertAll_of_perm hordered
  rw [foldlM_assign? (fun var hvar => hvars var (hordered.mem_iff.1 hvar)), hsame]

end Environment

/-! ## The listing -/

/-- Lines with a line feed behind each of them are cut at the line feeds again. -/
theorem Text.splitOn_fed {lines : List (List Char)} (h : ∀ line ∈ lines, '\n' ∉ line) :
    (lines.flatMap (· ++ ['\n'])).splitOn '\n' = lines ++ [[]] := by
  induction lines with
  | nil => rfl
  | cons line lines ih =>
    obtain ⟨hline, hrest⟩ := List.forall_mem_cons.1 h
    rw [List.flatMap_cons, List.append_assoc, List.singleton_append,
      List.splitOn_append_cons_self, List.splitOn_eq_singleton hline, ih hrest]
    rfl

namespace Screen

variable {screen : Screen} {bytes : Bytes}

/-- A screen that takes as many bytes as there are has taken them all. -/
theorem accepted_of_length_le (h : bytes.length ≤ (screen.accepted bytes).length) :
    screen.accepted bytes = bytes := by
  unfold accepted at h ⊢
  split at h
  · rfl
  · rw [List.length_take] at h
    exact List.take_of_length_le (by omega)

end Screen

/-- **An action that prints a text:** if it succeeds, the text is what was put on the screen; and it
fails only if the screen does. -/
def Prints {ε α : Type} (text : String) (action : EStateM ε Shell α) : Prop :=
  ∀ p, Ends action p
    (fun _ q => q.machine.screen.contents = p.machine.screen.contents ++ bytesOf text ∧
      (p.machine.screen.NeverFails → q.machine.screen.NeverFails))
    fun _ => ¬ p.machine.screen.NeverFails

section Printing

variable {ε α β : Type} {text more : String} {action : EStateM ε Shell α}

theorem prints_pure (a : α) : Prints "" (pure a : EStateM ε Shell α) :=
  fun _ => ends_pure ⟨(List.append_nil _).symm, fun h => h⟩

theorem Prints.bind {next : α → EStateM ε Shell β} (h : Prints text action)
    (hnext : ∀ a, Prints more (next a)) : Prints (text ++ more) (action >>= next) := by
  intro p
  refine (h p).bind fun a q hq => ?_
  obtain ⟨hcontents, hscreen⟩ := hq
  refine (hnext a q).mono (fun b r hr => ⟨?_, fun hp => hr.2 (hscreen hp)⟩) fun r hr hp => ?_
  · rw [hr.1, hcontents, bytesOf_append, List.append_assoc]
  · exact hr (hscreen hp)

theorem Effect.ends_write (text : String) (m : Machine) : Ends (write text) m
    (fun _ n => n.screen.contents = m.screen.contents ++ bytesOf text ∧
      (m.screen.NeverFails → n.screen.NeverFails))
    fun _ => ¬ m.screen.NeverFails := by
  unfold write writeBytes
  refine ends_get_bind.2 (ends_modify_bind.2 (ends_modify_bind.2 ?_))
  by_cases hfull : (m.screen.accepted (bytesOf text)).length < (bytesOf text).length
  · rw [if_pos hfull]
    refine ends_of_error rfl fun h => ?_
    rw [h.accepted] at hfull
    exact Nat.lt_irrefl _ hfull
  · rw [if_neg hfull]
    refine ends_of_ok rfl ⟨?_, fun h => h.accept _⟩
    have hall := Screen.accepted_of_length_le (Nat.not_lt.1 hfull)
    have hcontents := Machine.contents_accept m.screen (bytesOf text)
    rwa [hall] at hcontents

theorem prints_writeLine (text : String) : Prints (text ++ "\n") (ShellM.writeLine text) := by
  intro p
  have hends := ShellM.ends_onMachine p (Effect.ends_write (text ++ "\n") p.machine)
  exact hends.mono (fun _ _ h => h.1) fun _ h => h

theorem Prints.printing {action : ShellM α} (h : Prints text action) :
    Prints text (Builtin.printing action) :=
  fun p => (h p).adaptExcept

end Printing

namespace Builtin

variable {p q : Shell}

/-- The listing of some variables. -/
def listing : List (String × String) → String
  | [] => ""
  | var :: vars => variableLine var ++ "\n" ++ listing vars

theorem toList_listing (vars : List (String × String)) : (listing vars).toList
    = (vars.map fun var => (variableLine var).toList).flatMap (· ++ ['\n']) := by
  induction vars with
  | nil => rfl
  | cons var vars ih =>
    rw [listing, String.toList_append, String.toList_append, ih]
    rfl

theorem prints_listing (vars : List (String × String)) :
    Prints (listing vars) (vars.forM fun var => printing (ShellM.writeLine (variableLine var))) := by
  induction vars with
  | nil => exact prints_pure PUnit.unit
  | cons var vars ih => exact (prints_writeLine (variableLine var)).printing.bind fun _ => ih

/-- The variables are listed, unless the screen fails. -/
theorem ends_printVariables (p : Shell) : Ends (perform .printVariables) p
    (fun status q => status = 0 ∧ q.machine.screen.contents
      = p.machine.screen.contents ++ bytesOf (listing p.environment.vars.entries))
    fun _ => ¬ p.machine.screen.NeverFails := by
  refine ends_get_bind.2 ?_
  refine (prints_listing p.environment.vars.entries p).bind fun _ q hq => ?_
  exact ends_pure ⟨rfl, hq.1⟩

/-- **`env` lists the variables** if it has status zero, and that it has where the screen never
fails. -/
theorem command_env (p : Shell) :
    (p.machine.screen.NeverFails → ∃ q, env.command [] p = .ok 0 q) ∧
    ∀ q, env.command [] p = .ok 0 q → q.machine.screen.contents
      = p.machine.screen.contents ++ bytesOf (listing p.environment.vars.entries) := by
  have hcommand : env.command [] = run .printVariables := rfl
  have hends := ends_printVariables p
  rw [hcommand]
  constructor
  · intro hscreen
    obtain ⟨status, q, hperform, rfl, -⟩ := hends.exists_ok fun _ hfails => hfails hscreen
    exact ⟨q, run_of_ok hperform⟩
  · intro q hrun
    cases hperform : perform .printVariables p with
    | ok status r =>
      rw [run_of_ok hperform] at hrun
      cases hrun
      exact (hends.ok _ _ hperform).2
    | error failure r =>
      -- A failure that could be reported has status one.
      rw [run_of_error hperform, bind_eq_ok] at hrun
      obtain ⟨_, s, -, hreturn⟩ := hrun
      cases hreturn

/-- **The listing determines the variables.** If no name is empty or holds an equals sign, and no
name or value holds a line feed, what `env` prints is cut at the line feeds into one line for each
variable, in the order of the bytes of their names, with nothing behind the last line feed. And the
assignments that these lines are, in whatever order, give the same variables again to an environment
that has none. -/
theorem env_determines
    (hvars : ∀ name value, p.environment.get? name = some value → Listable name value) :
    (p.machine.screen.NeverFails → ∃ q, env.command [] p = .ok 0 q) ∧
    ∀ q, env.command [] p = .ok 0 q → ∃ (output : String) (vars : List (String × String)),
      q.machine.screen.contents = p.machine.screen.contents ++ bytesOf output ∧
      output.toList.splitOn '\n'
        = vars.map (fun var => (var.1 ++ "=" ++ var.2).toList) ++ [[]] ∧
      (∀ name value, (name, value) ∈ vars ↔ p.environment.get? name = some value) ∧
      (vars.Pairwise fun a b => bytesOf a.1 < bytesOf b.1) ∧
      ∀ lines : List String, lines.Perm (vars.map fun var => var.1 ++ "=" ++ var.2) →
        ∀ empty : Environment, empty.vars = ∅ → lines.foldlM Environment.assign? empty
          = some { empty with vars := p.environment.vars } := by
  obtain ⟨hsucceeds, hcontents⟩ := command_env p
  have hentries : ∀ var ∈ p.environment.vars.entries, Listable var.1 var.2 := fun var hvar =>
    hvars var.1 var.2 (Bindings.mem_entries_iff.1 hvar)
  have hfeed : ∀ line ∈ p.environment.vars.entries.map fun var => (variableLine var).toList,
      '\n' ∉ line := by
    intro line hline
    obtain ⟨var, hvar, rfl⟩ := List.mem_map.1 hline
    obtain ⟨hname, hvalue⟩ := (hentries var hvar).feed
    rw [Environment.toList_variableLine, List.mem_append, List.mem_cons]
    rintro (hmem | heq | hmem)
    · exact hname hmem
    · cases heq
    · exact hvalue hmem
  refine ⟨hsucceeds, fun q hq => ⟨_, p.environment.vars.entries, hcontents q hq, ?_, ?_, ?_, ?_⟩⟩
  · rw [toList_listing]
    exact Text.splitOn_fed hfeed
  · exact fun name value => Bindings.mem_entries_iff
  · exact p.environment.vars.sorted.imp fun hless => bytesOf_lt_iff.2 hless
  · exact fun lines hlines empty hempty =>
      Environment.foldlM_assign?_of_perm hentries hlines hempty

/-- A shell with a variable that is empty, and one whose value holds an equals sign. -/
def variedShell : Shell :=
  ⟨.boot .empty, ⟨.ofList [("OPTS", "a=b"), ("EMPTY", "")], bytesOf "/", false⟩⟩

theorem entries_varied :
    variedShell.environment.vars.entries = [("EMPTY", ""), ("OPTS", "a=b")] := by
  decide +kernel

/-- Both are listed, and both are there again when the lines are read from the last one on. -/
theorem env_determines_varied :
    (∀ name value, variedShell.environment.get? name = some value → Listable name value) ∧
    ∃ (q : Shell) (output : String) (vars : List (String × String)),
      env.command [] variedShell = .ok 0 q ∧ q.machine.screen.contents = bytesOf output ∧
      output.toList.splitOn '\n'
        = vars.map (fun var => (var.1 ++ "=" ++ var.2).toList) ++ [[]] ∧
      ("EMPTY", "") ∈ vars ∧ ("OPTS", "a=b") ∈ vars ∧
      (vars.map fun var => var.1 ++ "=" ++ var.2).reverse.foldlM Environment.assign?
        ⟨∅, bytesOf "/", false⟩ = some variedShell.environment := by
  have hvars : ∀ name value, variedShell.environment.get? name = some value →
      Listable name value := by
    intro name value hvar
    have hmem : (name, value) ∈ variedShell.environment.vars.entries :=
      Bindings.mem_entries_iff.2 hvar
    rw [entries_varied, List.mem_cons, List.mem_singleton] at hmem
    rcases hmem with heq | heq
    · cases heq
      exact ⟨by decide, by decide, by decide, by decide⟩
    · cases heq
      exact ⟨by decide, by decide, by decide, by decide⟩
  obtain ⟨hsucceeds, hlists⟩ := @env_determines variedShell hvars
  obtain ⟨q, hq⟩ := hsucceeds Screen.neverFails_unlimited
  obtain ⟨output, vars, hcontents, hlines, hmem, -, hback⟩ := hlists q hq
  refine ⟨hvars, q, output, vars, hq, hcontents, hlines, ?_, ?_, ?_⟩
  · exact (hmem "EMPTY" "").2 (by decide +kernel)
  · exact (hmem "OPTS" "a=b").2 (by decide +kernel)
  · exact hback _ (List.reverse_perm _) ⟨∅, bytesOf "/", false⟩ rfl

end Builtin

end LineShell
