import LineShell.Proofs.Text.ByteOrder
import LineShell.Proofs.Wildcard.Matching
import Mathlib.Data.List.Nodup
/-!
What a pattern expands to.

A pattern is cut behind its last slash, and the names in the directory that is written in front of
it are sorted out by what stands behind it. Nothing is lost on the way and nothing comes twice: a
tree lists every name of a directory once, a byte string is the encoding of one text at most, and
what is written in front of the names is the same for all of them. So the sorted list increases
strictly, and it is told by its members alone (`expand_lists`).
-/

set_option autoImplicit false

namespace LineShell

/-! ## The names in a directory -/

namespace FileTree

variable {tree : FileTree} {place : Place} {name : Name}

theorem node?_isSome_iff : (tree.node? (name :: place)).isSome ↔
    name :: place ∈ tree.entries.map Prod.fst := by
  constructor
  · intro h
    by_contra hmem
    obtain ⟨node, hnode⟩ := Option.isSome_iff_exists.1 h
    exact hmem (List.mem_map_of_mem (mem_of_lookup hnode))
  · intro hmem
    by_contra h
    exact not_mem_of_lookup_eq_none (Option.not_isSome_iff_eq_none.1 h) hmem

/-- The name of a place below a directory. -/
def nameBelow? (place : Place) : Place → Option Name
  | name :: above => if above = place then some name else none
  | [] => none

theorem nameBelow?_eq_some_iff {below : Place} :
    nameBelow? place below = some name ↔ below = name :: place := by
  cases below <;> grind [nameBelow?]

theorem namesAt_eq (tree : FileTree) (place : Place) :
    tree.namesAt place = (tree.entries.map Prod.fst).filterMap (nameBelow? place) := by
  rw [List.filterMap_map]
  unfold namesAt
  congr 1
  funext ⟨below, node⟩
  cases below <;> rfl

/-- **The names in a directory** are those at which something stands below it. -/
theorem mem_namesAt : name ∈ tree.namesAt place ↔ (tree.node? (name :: place)).isSome := by
  rw [namesAt_eq, node?_isSome_iff, List.mem_filterMap]
  simp only [nameBelow?_eq_some_iff, exists_eq_right]

/-- Every name is listed once. -/
theorem nodup_namesAt (tree : FileTree) (place : Place) : (tree.namesAt place).Nodup := by
  rw [namesAt_eq]
  refine tree.distinct.filterMap fun below below' name h h' => ?_
  rw [nameBelow?_eq_some_iff.1 h, nameBelow?_eq_some_iff.1 h']

end FileTree

/-! ## Sorted texts -/

/-- Sorted texts, none of them twice, increase strictly. -/
theorem pairwise_lt_mergeSort {texts : List String} (h : texts.Nodup) :
    (texts.mergeSort (· ≤ ·)).Pairwise (· < ·) := by
  have htrans (a b c : String) (hab : decide (a ≤ b) = true) (hbc : decide (b ≤ c) = true) :
      decide (a ≤ c) = true := by
    rw [decide_eq_true_eq] at hab hbc ⊢
    exact le_trans hab hbc
  have htotal (a b : String) : (decide (a ≤ b) || decide (b ≤ a)) = true := by
    simpa using le_total a b
  have hsorted := List.pairwise_mergeSort htrans htotal texts
  have hnodup : (texts.mergeSort (· ≤ ·)).Nodup := (texts.mergeSort_perm _).nodup_iff.2 h
  refine (hsorted.and hnodup).imp fun hboth => ?_
  exact lt_of_le_of_ne (decide_eq_true_eq.mp hboth.1) hboth.2

namespace Wildcard

variable {written step : List Char}

/-- **A pattern is cut behind its last slash.** -/
theorem cut_append (hwritten : ∀ c ∈ written.getLast?, c = '/') (hstep : '/' ∉ step) :
    cut (written ++ step) = (written, step) := by
  have hfront : written.reverse.takeWhile (· != '/') = [] := by
    rw [← List.head?_reverse] at hwritten
    cases hrev : written.reverse with
    | nil => rfl
    | cons c rest => simp [hwritten c (by rw [hrev]; rfl)]
  have hbehind : (written ++ step).reverse.takeWhile (· != '/') = step.reverse := by
    rw [List.reverse_append, List.takeWhile_append_of_pos, hfront, List.append_nil]
    intro c hc
    have hne : c ≠ '/' := fun heq => hstep (heq ▸ List.mem_reverse.1 hc)
    simpa using hne
  unfold cut
  rw [hbehind, List.reverse_reverse]
  dsimp only
  rw [List.length_append, Nat.add_sub_cancel, List.take_left]

/-! ## What is listed -/

/-- What is found among the names of a directory, before it is sorted. -/
def found (written step : List Char) (names : List Name) : List String :=
  ((names.filterMap Utf8.decode?).filter (admits step)).map
    fun name => String.ofList (written ++ name)

/-- What stands for a name is put behind what is written; the name is text and admitted. -/
theorem mem_found {names : List Name} {text : String} : text ∈ found written step names ↔
    ∃ name : String, bytesOf name ∈ names ∧ admits step name.toList = true ∧
      text = String.ofList written ++ name := by
  simp only [found, List.mem_map, List.mem_filter, List.mem_filterMap, Utf8.decode?_eq_some_iff]
  constructor
  · rintro ⟨name, ⟨⟨bytes, hbytes, rfl⟩, hadmits⟩, rfl⟩
    refine ⟨String.ofList name, ?_, ?_, String.ofList_append⟩
    · rwa [bytesOf, String.toList_ofList]
    · rwa [String.toList_ofList]
  · rintro ⟨name, hname, hadmits, rfl⟩
    refine ⟨name.toList, ⟨⟨_, hname, rfl⟩, hadmits⟩, ?_⟩
    rw [String.ofList_append, String.ofList_toList]

/-- Different names stand for different texts. -/
theorem nodup_found {names : List Name} (h : names.Nodup) : (found written step names).Nodup := by
  have htexts : (names.filterMap Utf8.decode?).Nodup := by
    refine h.filterMap fun bytes bytes' text htext htext' => ?_
    rw [Utf8.decode?_eq_some_iff.1 htext, Utf8.decode?_eq_some_iff.1 htext']
  refine (htexts.filter _).map fun name name' hsame => ?_
  exact List.append_cancel_left (String.ofList_inj.1 hsame)

/-- **A pattern expands to the names that it matches.** Where the directory that is written in front
of it can be read, the list increases strictly in the order of bytes, and its members are the names
there that are text, are hidden only if the pattern asks for it, and are covered by what stands
behind the last slash. -/
theorem expand_lists {files : FileTree} {base : Option Place} {workDir : Path} {pattern : String}
    {place : Place} {number : Nat} {rights : Rights}
    (hpattern : pattern.toList = written ++ step)
    (hwritten : ∀ c ∈ written.getLast?, c = '/') (hstep : '/' ∉ step)
    (hdirectory : files.look base (if written = [] then workDir
      else workDir.join (Utf8.encode written)) = .ok (place, .dir number rights))
    (hread : rights.read = true) (hsize : isTooLarge (step.map Element.ofChar) = false) :
    ∃ found, expand files base pattern workDir = .ok found ∧
      found.Pairwise (fun a b => bytesOf a < bytesOf b) ∧
      ∀ text, text ∈ found ↔ ∃ name : String, (files.node? (bytesOf name :: place)).isSome ∧
        (name.toList.head? = some '.' → step.head? = some '.') ∧ Covers step name.toList ∧
        text = String.ofList written ++ name := by
  have hlist : files.list base (if written.isEmpty then workDir
      else workDir.join (Utf8.encode written)) = .ok (files.namesAt place) := by
    simp only [List.isEmpty_iff]
    unfold FileTree.list
    rw [hdirectory]
    exact if_pos hread
  refine ⟨(found written step (files.namesAt place)).mergeSort (· ≤ ·), ?_, ?_, fun text => ?_⟩
  · unfold expand
    rw [hpattern, cut_append hwritten hstep]
    dsimp only
    rw [hsize, hlist]
    rfl
  · refine (pairwise_lt_mergeSort ?_).imp bytesOf_lt_iff.2
    exact nodup_found (files.nodup_namesAt place)
  · rw [List.mem_mergeSort, mem_found]
    simp only [FileTree.mem_namesAt, admits_iff, and_assoc]

/-- A directory with names of all kinds. -/
def variedFiles : FileTree :=
  let names : List Name := [bytesOf "axb", bytesOf "a.b", bytesOf "aéb", bytesOf ".a.b",
    bytesOf "a\nb", [0x61, 0xff, 0x62]]
  names.foldl (fun files name => files.add name [bytesOf "d"] (.file [] .all))
    (FileTree.empty.addDir (bytesOf "d") [] .all)

/-- Behind a directory that is written with a slash. -/
theorem expand_lists_varied : ∃ found,
    expand variedFiles (some []) "d/a?b" (bytesOf "/") = .ok found ∧
      found.Pairwise (fun a b => bytesOf a < bytesOf b) ∧
      ∀ text, text ∈ found ↔ ∃ name : String,
        (variedFiles.node? [bytesOf name, bytesOf "d"]).isSome ∧
        (name.toList.head? = some '.' → some 'a' = some '.') ∧ Covers ['a', '?', 'b'] name.toList ∧
        text = "d/" ++ name :=
  @expand_lists ['d', '/'] ['a', '?', 'b'] variedFiles (some []) (bytesOf "/") "d/a?b"
    [bytesOf "d"] 1 .all (by decide) (by simp) (by decide) (by decide)
    (by decide) (by decide)

end Wildcard

end LineShell
