import LineShell.Proofs.Action
import Mathlib.Tactic.Common
/-!
Which place a path names, and what keeps it so.

A path names a place whether something stands there or not, as long as the directory around it does.
Making a file at a free name and putting bytes into a file are the same kind of change seen from a
path: one place holds a file afterwards, and every other one holds what it held (`Grows`). Such a
change lets every path name the place that it named before (`names_of_grows`), for a walk that stops
at the file stopped there before, and none can go on from a file.
-/

set_option autoImplicit false

namespace LineShell

/-- The place that a spot is about, whether something stands there or not. -/
def Spot.target : Spot → Place
  | .found place => place
  | .vacant name above => name :: above

namespace FileTree

/-- **A path names a place:** a walk along it ends there. -/
def Names (tree : FileTree) (base : Option Place) (path : Path) (place : Place) : Prop :=
  (tree.locate base path).toOption.map Spot.target = some place

instance (tree : FileTree) (base : Option Place) (path : Path) (place : Place) :
    Decidable (tree.Names base path place) := inferInstanceAs (Decidable (_ = _))

/-- Whether something stands at a place. -/
def Stands (tree : FileTree) (place : Place) : Prop := ∃ node, tree.node? place = some node

/-- **A change of one file:** something may have been made at a free name, or written to a file that
was there. -/
structure Grows (place : Place) (tree later : FileTree) : Prop where
  before : ∀ node, tree.node? place = some node → ∃ data rights, node = .file data rights
  after : ∃ data rights, later.node? place = some (.file data rights)
  elsewhere : ∀ other, other ≠ place → later.node? other = tree.node? other
  /-- What is looked for among the other places is found where it was. -/
  found : ∀ test : Place → Bool, test place = false →
    (later.entries.map Prod.fst).find? test = (tree.entries.map Prod.fst).find? test

/-! ## What a walk asks -/

section Grows

variable {place : Place} {tree later : FileTree}

/-- A node at the place of the change is none, or a file. -/
theorem Grows.cases_before (h : Grows place tree later) :
    tree.node? place = none ∨ ∃ data rights, tree.node? place = some (.file data rights) := by
  cases hnode : tree.node? place with
  | none => exact .inl rfl
  | some node =>
    obtain ⟨data, rights, rfl⟩ := h.before node hnode
    exact .inr ⟨data, rights, rfl⟩

theorem Grows.isDirAt (h : Grows place tree later) (other : Place) :
    later.isDirAt other = tree.isDirAt other := by
  unfold FileTree.isDirAt
  by_cases heq : other = place
  · obtain ⟨data, rights, hafter⟩ := h.after
    subst heq
    rw [hafter]
    rcases h.cases_before with hbefore | ⟨data', rights', hbefore⟩ <;> rw [hbefore] <;> rfl
  · rw [h.elsewhere other heq]

theorem Grows.dirRights (h : Grows place tree later) (other : Place) :
    later.dirRights other = tree.dirRights other := by
  unfold FileTree.dirRights
  by_cases heq : other = place
  · obtain ⟨data, rights, hafter⟩ := h.after
    subst heq
    rw [hafter]
    rcases h.cases_before with hbefore | ⟨data', rights', hbefore⟩ <;> rw [hbefore]
  · rw [h.elsewhere other heq]

theorem Grows.isNumberAt (h : Grows place tree later) (other : Place) (number : Nat) :
    later.isNumberAt other number = tree.isNumberAt other number := by
  unfold FileTree.isNumberAt
  by_cases heq : other = place
  · obtain ⟨data, rights, hafter⟩ := h.after
    subst heq
    rw [hafter]
    rcases h.cases_before with hbefore | ⟨data', rights', hbefore⟩ <;> rw [hbefore]
  · rw [h.elsewhere other heq]

/-- **A directory stands where it stood.** -/
theorem Grows.placeOf (h : Grows place tree later) (other : Place) (number : Nat) :
    later.placeOf other number = tree.placeOf other number := by
  have htest : (fun p => later.isNumberAt p number) = fun p => tree.isNumberAt p number :=
    funext fun p => h.isNumberAt p number
  have hplace : tree.isNumberAt place number = false := by
    unfold FileTree.isNumberAt
    rcases h.cases_before with hbefore | ⟨data, rights, hbefore⟩ <;> rw [hbefore]
  unfold FileTree.placeOf
  rw [h.isNumberAt, htest, h.found _ hplace]

/-- How a walk goes on from a link. -/
abbrev Follow := Path → Place → List Bytes → Except Cause Spot

/-- A walk does not go on from a place that holds no directory. -/
theorem walkSteps_of_not_isDirAt {making : Bool} (follow : Follow)
    (hdir : tree.isDirAt place = false) {todo : List Bytes} (htodo : todo ≠ []) :
    tree.walkSteps making follow place todo = .error .notDirectory := by
  cases todo with
  | nil => exact absurd rfl htodo
  | cons step rest =>
    rw [walkSteps, hdir]
    rfl

/-- A step that is looked up by its name. -/
structure Enters (tree : FileTree) (making : Bool) (here : Place) (step : Bytes)
    (rest : List Bytes) : Prop where
  dir : ¬ (!tree.isDirAt here) = true
  slash : ¬ step = Path.slashStep
  pass : ¬ (!(tree.dirRights here).pass) = true
  dot : ¬ step = Path.dot
  dotDot : ¬ step = Path.dotDot
  making : ¬ (making && decide (rest = [Path.slashStep])) = true
  length : ¬ maxNameLength < step.length

theorem walkSteps_of_enters {making : Bool} (follow : Follow) {here : Place} {step : Bytes}
    {rest : List Bytes} (h : tree.Enters making here step rest) :
    tree.walkSteps making follow here (step :: rest) =
      match tree.node? (step :: here) with
      | none => if rest.isEmpty then .ok (.vacant step here) else .error .missing
      | some (.link target) => follow target here rest
      | some _ => tree.walkSteps making follow (step :: here) rest := by
  rw [walkSteps, if_neg h.dir, if_neg h.slash, if_neg h.pass, if_neg h.dot, if_neg h.dotDot]
  exact (if_neg h.making).trans (if_neg h.length)

theorem Grows.enters (h : Grows place tree later) {making : Bool} {here : Place} {step : Bytes}
    {rest : List Bytes} (henters : tree.Enters making here step rest) :
    later.Enters making here step rest where
  dir := by rw [h.isDirAt]; exact henters.dir
  slash := henters.slash
  pass := by rw [h.dirRights]; exact henters.pass
  dot := henters.dot
  dotDot := henters.dotDot
  making := henters.making
  length := henters.length

/-- A link is no file, so it stands where the change was not made. -/
theorem Grows.link (h : Grows place tree later) {other : Place} {target : Path}
    (hother : tree.node? other = some (.link target)) :
    later.node? other = some (.link target) := by
  rw [h.elsewhere other ?_, hother]
  rintro rfl
  obtain ⟨data, rights, hfile⟩ := h.before _ hother
  cases hfile

/-- Two results of a walk that lead to one place, or both to none. -/
def SameEnd (result result' : Except Cause Spot) : Prop :=
  result.toOption.map Spot.target = result'.toOption.map Spot.target

/-- Up to the first link a walk goes where it went before. -/
theorem Grows.walkSteps (h : Grows place tree later) (making : Bool) {follow follow' : Follow}
    (hfollow : ∀ target here rest,
      SameEnd (follow' target here rest) (follow target here rest))
    (here : Place) (todo : List Bytes) :
    SameEnd (later.walkSteps making follow' here todo)
      (tree.walkSteps making follow here todo) := by
  obtain ⟨data, rights, hfile⟩ := h.after
  fun_induction FileTree.walkSteps tree making follow here todo with
  | case1 here => rfl
  | case2 here step rest hdir =>
    rw [FileTree.walkSteps, h.isDirAt, if_pos hdir]
    rfl
  | case3 here rest hdir ih =>
    rw [FileTree.walkSteps, h.isDirAt, if_neg hdir, if_pos rfl]
    exact ih
  | case4 here step rest hdir hslash hpass =>
    rw [FileTree.walkSteps, h.isDirAt, h.dirRights, if_neg hdir, if_neg hslash, if_pos hpass]
    rfl
  | case5 here rest hdir hpass hslash ih =>
    rw [FileTree.walkSteps, h.isDirAt, h.dirRights, if_neg hdir, if_neg hslash, if_neg hpass,
      if_pos rfl]
    exact ih
  | case6 here rest hdir hpass hslash hdot ih =>
    rw [FileTree.walkSteps, h.isDirAt, h.dirRights, if_neg hdir, if_neg hslash, if_neg hpass,
      if_neg hdot, if_pos rfl]
    exact ih
  | case7 here step rest hdir hslash hpass hdot hdots hmaking =>
    rw [FileTree.walkSteps, h.isDirAt, h.dirRights, if_neg hdir, if_neg hslash, if_neg hpass,
      if_neg hdot, if_neg hdots, if_pos hmaking]
    rfl
  | case8 here step rest hdir hslash hpass hdot hdots hmaking hlong =>
    rw [FileTree.walkSteps, h.isDirAt, h.dirRights, if_neg hdir, if_neg hslash, if_neg hpass,
      if_neg hdot, if_neg hdots, if_neg hmaking, if_pos hlong]
    rfl
  | case9 here step rest hdir hslash hpass hdot hdots hmaking hlong hnode hrest =>
    have henters : tree.Enters making here step rest :=
      ⟨hdir, hslash, hpass, hdot, hdots, hmaking, hlong⟩
    rw [walkSteps_of_enters _ (h.enters henters), List.isEmpty_iff.1 hrest]
    by_cases hplace : step :: here = place
    · -- The walk that stopped at a free name stops at the file that was made there.
      rw [hplace, hfile]
      exact congrArg some hplace.symm
    · rw [h.elsewhere _ hplace, hnode]
      rfl
  | case10 here step rest hdir hslash hpass hdot hdots hmaking hlong hnode hrest =>
    have henters : tree.Enters making here step rest :=
      ⟨hdir, hslash, hpass, hdot, hdots, hmaking, hlong⟩
    rw [walkSteps_of_enters _ (h.enters henters)]
    by_cases hplace : step :: here = place
    · -- The walk that found nothing finds a file, and cannot go on from it.
      have hnodir : later.isDirAt place = false := by
        unfold FileTree.isDirAt
        rw [hfile]
        rfl
      have hmore : rest ≠ [] := fun hnil => hrest (by rw [hnil]; rfl)
      rw [hplace, hfile]
      dsimp only
      rw [walkSteps_of_not_isDirAt _ hnodir hmore]
      rfl
    · rw [h.elsewhere _ hplace, hnode]
      dsimp only
      rw [if_neg hrest]
      rfl
  | case11 here step rest hdir hslash hpass hdot hdots hmaking hlong target hnode =>
    have henters : tree.Enters making here step rest :=
      ⟨hdir, hslash, hpass, hdot, hdots, hmaking, hlong⟩
    rw [walkSteps_of_enters _ (h.enters henters), h.link hnode]
    exact hfollow target here rest
  | case12 here step rest hdir hslash hpass hdot hdots hmaking hlong node hnolink hnode ih =>
    have henters : tree.Enters making here step rest :=
      ⟨hdir, hslash, hpass, hdot, hdots, hmaking, hlong⟩
    rw [walkSteps_of_enters _ (h.enters henters)]
    by_cases hplace : step :: here = place
    · rw [hplace, hfile]
      rwa [hplace] at ih
    · rw [h.elsewhere _ hplace, hnode]
      cases node with
      | link target => exact absurd rfl (hnolink target)
      | file data rights => exact ih
      | dir number rights => exact ih
      | device device => exact ih

/-- **A walk ends where it ended before,** if it ended at all. -/
theorem Grows.walk (h : Grows place tree later) (making : Bool) (links : Nat) (here : Place)
    (todo : List Bytes) :
    SameEnd (later.walk making links here todo) (tree.walk making links here todo) := by
  induction links generalizing here todo with
  | zero => exact h.walkSteps making (fun _ _ _ => rfl) here todo
  | succ links ih =>
    refine h.walkSteps making (fun target here rest => ?_) here todo
    split
    · rfl
    · exact ih _ _

/-- **Every path names the place that it named before.** -/
theorem names_of_grows (h : Grows place tree later) {base : Option Place} {path : Path}
    {other : Place} : later.Names base path other ↔ tree.Names base path other := by
  unfold Names locate
  cases startWithin base path with
  | error cause => rw [except_error_bind, except_error_bind]
  | ok here =>
    have hwalk : SameEnd (later.walk false maxLinks here path.steps)
        (tree.walk false maxLinks here path.steps) := h.walk false maxLinks here path.steps
    unfold SameEnd at hwalk
    rw [except_ok_bind, except_ok_bind, hwalk]

end Grows

/-! ## Where a walk ends -/

variable {tree : FileTree}

theorem walkSteps_of_making {follow follow' : Follow} {spot : Spot}
    (hfollow : ∀ target here rest, follow target here rest = .ok spot →
      follow' target here rest = .ok spot)
    {here : Place} {todo : List Bytes} (h : tree.walkSteps true follow here todo = .ok spot) :
    tree.walkSteps false follow' here todo = .ok spot := by
  fun_induction FileTree.walkSteps tree true follow here todo with
  | case1 here => rwa [FileTree.walkSteps]
  | case3 here rest hdir ih =>
    rw [FileTree.walkSteps, if_neg hdir, if_pos rfl]
    exact ih h
  | case5 here rest hdir hpass hslash ih =>
    rw [FileTree.walkSteps, if_neg hdir, if_neg hslash, if_neg hpass, if_pos rfl]
    exact ih h
  | case6 here rest hdir hpass hslash hdot ih =>
    rw [FileTree.walkSteps, if_neg hdir, if_neg hslash, if_neg hpass, if_neg hdot, if_pos rfl]
    exact ih h
  | case9 here step rest hdir hslash hpass hdot hdots hmaking hlong hnode hrest =>
    have henters : tree.Enters false here step rest :=
      ⟨hdir, hslash, hpass, hdot, hdots, Bool.false_ne_true, hlong⟩
    rw [walkSteps_of_enters _ henters, hnode]
    dsimp only
    rwa [if_pos hrest]
  | case11 here step rest hdir hslash hpass hdot hdots hmaking hlong target hnode =>
    have henters : tree.Enters false here step rest :=
      ⟨hdir, hslash, hpass, hdot, hdots, Bool.false_ne_true, hlong⟩
    rw [walkSteps_of_enters _ henters, hnode]
    exact hfollow target here rest h
  | case12 here step rest hdir hslash hpass hdot hdots hmaking hlong node hnolink hnode ih =>
    have henters : tree.Enters false here step rest :=
      ⟨hdir, hslash, hpass, hdot, hdots, Bool.false_ne_true, hlong⟩
    rw [walkSteps_of_enters _ henters, hnode]
    cases node with
    | link target => exact absurd rfl (hnolink target)
    | file data rights => exact ih h
    | dir number rights => exact ih h
    | device device => exact ih h
  | _ => cases h

/-- **A walk that is to make a file goes where any other goes,** if it gets there. -/
theorem walk_of_making {links : Nat} {here : Place} {todo : List Bytes} {spot : Spot}
    (h : tree.walk true links here todo = .ok spot) :
    tree.walk false links here todo = .ok spot := by
  induction links generalizing here todo with
  | zero =>
    refine walkSteps_of_making ?_ h
    intro _ _ _ hfail
    cases hfail
  | succ links ih =>
    refine walkSteps_of_making ?_ h
    intro target here rest hnext
    split at hnext
    · cases hnext
    · next hempty =>
      rw [if_neg hempty]
      exact ih hnext

/-- What stands at a place stands in a directory that stands too. -/
theorem Stands.tail {place : Place} (h : tree.Stands place) : tree.Stands place.tail := by
  cases place with
  | nil => exact h
  | cons name above =>
    obtain ⟨node, hnode⟩ := h
    cases above with
    | nil => exact ⟨_, rfl⟩
    | cons next rest =>
      rcases tree.hosted _ (mem_of_lookup hnode) with hnil | ⟨dir, hmem, -⟩
      · cases hnil
      · cases hlookup : tree.entries.lookup (next :: rest) with
        | none =>
          exact absurd (List.mem_map_of_mem hmem) (not_mem_of_lookup_eq_none hlookup)
        | some node => exact ⟨node, hlookup⟩

/-- What the end of a walk tells: something stands there, or it is a free name in a directory. -/
def Settles (tree : FileTree) : Spot → Prop
  | .found place => tree.Stands place
  | .vacant name above => tree.isDirAt above = true ∧ tree.node? (name :: above) = none

theorem settles_of_walkSteps {making : Bool} {follow : Follow} {here : Place}
    {todo : List Bytes} {spot : Spot} (hhere : tree.Stands here)
    (hfollow : ∀ target here rest, tree.Stands here → follow target here rest = .ok spot →
      tree.Settles spot)
    (h : tree.walkSteps making follow here todo = .ok spot) : tree.Settles spot := by
  fun_induction FileTree.walkSteps tree making follow here todo with
  | case1 here =>
    cases h
    exact hhere
  | case3 here rest hdir ih => exact ih hhere h
  | case5 here rest hdir hpass hslash ih => exact ih hhere h
  | case6 here rest hdir hpass hslash hdot ih => exact ih hhere.tail h
  | case9 here step rest hdir hslash hpass hdot hdots hmaking hlong hnode hrest =>
    cases h
    exact ⟨by simpa using hdir, hnode⟩
  | case11 here step rest hdir hslash hpass hdot hdots hmaking hlong target hnode =>
    exact hfollow target here rest hhere h
  | case12 here step rest hdir hslash hpass hdot hdots hmaking hlong node hnolink hnode ih =>
    exact ih ⟨node, hnode⟩ h
  | _ => cases h

theorem settles_of_walk {making : Bool} {links : Nat} {here : Place} {todo : List Bytes}
    {spot : Spot} (hhere : tree.Stands here) (h : tree.walk making links here todo = .ok spot) :
    tree.Settles spot := by
  induction links generalizing here todo with
  | zero =>
    refine settles_of_walkSteps hhere ?_ h
    intro _ _ _ _ hfail
    cases hfail
  | succ links ih =>
    refine settles_of_walkSteps hhere ?_ h
    intro target here rest hhere hnext
    split at hnext
    · cases hnext
    · refine ih ?_ hnext
      split
      · exact ⟨_, rfl⟩
      · exact hhere

end FileTree

end LineShell
