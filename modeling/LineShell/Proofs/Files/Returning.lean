import LineShell.Proofs.Files.Canonical
import LineShell.Proofs.Shell.Commands
import Mathlib.Data.List.Infix
/-!
The canonical path of a canonical path.

The steps of a path that was made for a place are the names of the place. If directories stand there
that can be gone through, a walk takes all of the steps, and so does finding the canonical path,
which comes to the path that it was given (`FileTree.Opens.canonical`). So a directory that still
stands can be come back to by its canonical path, from wherever one is.
-/

set_option autoImplicit false

namespace LineShell

/-- A proper name that is not too long. -/
structure Name.Fit (name : Name) : Prop extends Name.Proper name where
  length : name.length ≤ FileTree.maxNameLength

instance (name : Name) : Decidable (Name.Fit name) :=
  decidable_of_iff (Name.Proper name ∧ name.length ≤ FileTree.maxNameLength)
    ⟨fun h => ⟨h.1, h.2⟩, fun h => ⟨h.toProper, h.length⟩⟩

namespace Place

theorem length_path_pos (place : Place) : 0 < (Place.path place).length := by
  have habsolute := isAbsolute_path place
  cases hpath : Place.path place with
  | nil =>
    rw [hpath] at habsolute
    cases habsolute
  | cons byte bytes => exact Nat.succ_pos _

/-- The directories above a place have shorter paths. -/
theorem length_path_le (below : List Name) (place : Place) :
    (Place.path place).length ≤ (Place.path (below ++ place)).length := by
  by_cases hnil : place = []
  · rw [hnil]
    exact length_path_pos _
  · have hne : below ++ place ≠ [] := fun h => hnil (List.append_eq_nil_iff.1 h).2
    rw [path_of_ne_nil hnil, path_of_ne_nil hne, List.reverse_append, List.flatMap_append,
      List.length_append]
    omega

/-- **A path leads to one place** that is made of proper names. -/
theorem path_inj {place other : Place} (hproper : Place.Proper place)
    (hother : Place.Proper other) (h : Place.path place = Place.path other) : place = other := by
  have hsteps : (Place.path place).steps = (Place.path other).steps := congrArg Path.steps h
  -- The path of the root is the only one with a step that is no name.
  have hroot {place : Place} (hproper : Place.Proper place)
      (hsteps : [Path.slashStep] = (Place.path place).steps) : [] = place := by
    by_contra hne
    rw [steps_path hproper (Ne.symm hne)] at hsteps
    have hmem : Path.slashStep ∈ List.reverse place := by rw [← hsteps]; exact List.mem_cons_self
    exact (hproper _ (List.mem_reverse.1 hmem)).nonempty rfl
  by_cases hnil : place = []
  · subst hnil
    exact hroot hother hsteps
  · by_cases hnil' : other = []
    · subst hnil'
      exact (hroot hproper hsteps.symm).symm
    · rw [steps_path hproper hnil, steps_path hother hnil'] at hsteps
      exact List.reverse_injective hsteps

/-- **A place that fits into a path:** a path can lead there, and is not too long to be taken. -/
structure Fit (place : Place) : Prop where
  names : ∀ name ∈ place, Name.Fit name
  nul : (Place.path place).contains 0 = false
  length : (Place.path place).length ≤ FileTree.maxPathLength

instance (place : Place) : Decidable (Fit place) :=
  decidable_of_iff ((∀ name ∈ place, Name.Fit name) ∧ (Place.path place).contains 0 = false ∧
      (Place.path place).length ≤ FileTree.maxPathLength)
    ⟨fun h => ⟨h.1, h.2.1, h.2.2⟩, fun h => ⟨h.names, h.nul, h.length⟩⟩

variable {place : Place}

theorem Fit.proper (h : place.Fit) : Place.Proper place := fun name hmem =>
  (h.names name hmem).toProper

/-- The names of a place, from the root on, lead from there to the place. -/
theorem from_root (place : Place) : (List.reverse place).reverse ++ [] = place := by
  rw [List.reverse_reverse, List.append_nil]

theorem fit_nil : Fit [] := by decide

theorem Fit.reverse (h : place.Fit) : ∀ name ∈ List.reverse place, Name.Fit name :=
  fun name hmem => h.names name (List.mem_reverse.1 hmem)

end Place

namespace FileTree

variable {tree : FileTree} {base : Option Place} {place : Place}

/-! ## Open directories -/

/-- **A directory that is open:** it still stands, and it and those above it can be gone through. -/
structure Opens (tree : FileTree) (place : Place) : Prop where
  stands : tree.isDirAt place = true
  passes : ∀ above, above <:+ place → (tree.dirRights above).pass = true

instance (tree : FileTree) (place : Place) : Decidable (tree.Opens place) :=
  decidable_of_iff (tree.isDirAt place = true ∧
      ∀ above ∈ place.tails, (tree.dirRights above).pass = true)
    ⟨fun h => ⟨h.1, fun above habove => h.2 above ((List.mem_tails above place).2 habove)⟩,
      fun h => ⟨h.stands, fun above hmem => h.passes above ((List.mem_tails above place).1 hmem)⟩⟩

/-- **A directory that can be entered by its path:** it is open, and its path can be taken. -/
structure Admits (tree : FileTree) (place : Place) : Prop where
  fit : place.Fit
  opens : tree.Opens place

instance (tree : FileTree) (place : Place) : Decidable (tree.Admits place) :=
  decidable_of_iff (place.Fit ∧ tree.Opens place)
    ⟨fun h => ⟨h.1, h.2⟩, fun h => ⟨h.fit, h.opens⟩⟩

theorem isDirAt_of_cons {name : Name} {above : Place} (h : tree.isDirAt (name :: above) = true) :
    tree.isDirAt above = true := by
  obtain ⟨node, hmem, -⟩ := (eq_nil_or_mem_of_isDirAt h).resolve_left (List.cons_ne_nil _ _)
  rcases tree.hosted _ hmem with rfl | ⟨dir, hdir, his⟩
  · rfl
  · cases above with
    | nil => rfl
    | cons next rest =>
      have hnode : tree.node? (next :: rest) = some dir := lookup_of_mem tree.distinct hdir
      rw [isDirAt, hnode]
      exact his

theorem Opens.of_append {below : List Name} (h : tree.Opens (below ++ place)) :
    tree.Opens place := by
  refine ⟨?_, fun above habove => h.passes above (habove.trans (List.suffix_append _ _))⟩
  have hstands := h.stands
  induction below with
  | nil => exact hstands
  | cons name below ih =>
    refine ih ⟨isDirAt_of_cons hstands, fun above habove => ?_⟩ (isDirAt_of_cons hstands)
    exact h.passes above (habove.trans (List.suffix_cons name _))

theorem Opens.exists_dir (h : tree.Opens place) : ∃ number rights,
    tree.node? place = some (.dir number rights) ∧ rights.pass = true := by
  have hstands := h.stands
  have hpass := h.passes place List.suffix_rfl
  unfold isDirAt at hstands
  unfold dirRights at hpass
  cases hnode : tree.node? place with
  | none =>
    rw [hnode] at hstands
    cases hstands
  | some node =>
    rw [hnode] at hstands hpass
    cases node with
    | dir number rights => exact ⟨number, rights, rfl, hpass⟩
    | _ => cases hstands

/-- A directory that stands is no link. -/
theorem straight_of_isDirAt (hproper : Place.Proper place) (h : tree.isDirAt place = true) :
    tree.Straight place := by
  unfold isDirAt at h
  split at h
  · next node hnode =>
    refine ⟨hproper, node, hnode, ?_⟩
    rintro target rfl
    cases h
  · cases h

theorem Opens.enters {here : Place} {step : Bytes} (h : tree.Opens (step :: here))
    (hstep : Name.Fit step) (rest : List Bytes) : tree.Enters false here step rest where
  dir := by
    rw [isDirAt_of_cons h.stands]
    decide
  slash := hstep.nonempty
  pass := by
    rw [h.passes here (List.suffix_cons step here)]
    decide
  dot := hstep.dot
  dotDot := hstep.dotDot
  making := Bool.false_ne_true
  length := Nat.not_lt.2 hstep.length

/-! ## Going along a path -/

section Along

variable {here : Place} {todo : List Bytes}

theorem reverse_cons_append (step : Bytes) (rest : List Bytes) (here : Place) :
    (step :: rest).reverse ++ here = rest.reverse ++ step :: here := by
  rw [List.reverse_cons, List.append_assoc, List.singleton_append]

/-- **A walk along open directories** comes to its end. -/
theorem walkSteps_of_opens (follow : Follow) (hopens : tree.Opens (todo.reverse ++ here))
    (hnames : ∀ name ∈ todo, Name.Fit name) :
    tree.walkSteps false follow here todo = .ok (.found (todo.reverse ++ here)) := by
  -- The names that are left make the same place with where the walk has come to, at every step.
  induction todo generalizing here with
  | nil => rw [walkSteps, List.reverse_nil, List.nil_append]
  | cons step rest ih =>
    rw [reverse_cons_append] at hopens ⊢
    obtain ⟨hstep, hrest⟩ := List.forall_mem_cons.1 hnames
    obtain ⟨number, rights, hnode, -⟩ := hopens.of_append.exists_dir
    rw [walkSteps_of_enters follow (hopens.of_append.enters hstep rest), hnode]
    exact ih hopens hrest

theorem asksForDir_of_fit {rest : List Bytes} (hnames : ∀ name ∈ rest, Name.Fit name) :
    asksForDir rest = false := by
  rcases rest with - | ⟨name, rest⟩
  · rfl
  · have hname := hnames name List.mem_cons_self
    have hdrop : (name :: rest).dropWhile (fun step => step = Path.slashStep ∨ step = Path.dot)
        = name :: rest := by
      rw [List.dropWhile_cons_of_neg]
      simp [hname.nonempty, hname.dot]
    rw [asksForDir, hdrop]
    simp [hname.dotDot]

/-- **Finding the canonical path** goes along with the walk, if no path on the way is too long. -/
theorem resolve_of_opens (links : Nat) (hopens : tree.Opens (todo.reverse ++ here))
    (hnames : ∀ name ∈ todo, Name.Fit name)
    (hlength : (Place.path (todo.reverse ++ here)).length ≤ maxPathLength) :
    tree.resolve links here todo = .ok (todo.reverse ++ here) := by
  induction todo generalizing here with
  | nil => rw [resolve, List.reverse_nil, List.nil_append]
  | cons step rest ih =>
    rw [reverse_cons_append] at hopens hlength ⊢
    obtain ⟨hstep, hrest⟩ := List.forall_mem_cons.1 hnames
    have henters := hopens.of_append.enters hstep rest
    -- Only the whole path is known to be short, but each one on the way is a part of it.
    have hshort : ¬ maxPathLength < (Place.path (step :: here)).length :=
      Nat.not_lt.2 (Nat.le_trans (Place.length_path_le rest.reverse _) hlength)
    obtain ⟨number, rights, hnode, -⟩ := hopens.of_append.exists_dir
    rw [resolve, if_neg (not_or.2 ⟨henters.slash, henters.dot⟩), if_neg henters.dotDot,
      if_neg hshort, if_neg henters.dir, if_neg henters.pass, if_neg henters.length, hnode]
    dsimp only
    rw [asksForDir_of_fit hrest, if_neg Bool.false_ne_true]
    exact ih hopens hrest hlength

/-- A step that a walk takes onto a straight place is no longer than a name may be, and is taken
from a directory that can be gone through. -/
theorem walkSteps_cons_of_straight {follow : Follow} {step : Bytes} {rest : List Bytes}
    {spot : Spot} (hstraight : tree.Straight (rest.reverse ++ step :: here))
    (h : tree.walkSteps false follow here (step :: rest) = .ok spot) :
    step.length ≤ maxNameLength ∧ (tree.dirRights here).pass = true ∧
      tree.walkSteps false follow (step :: here) rest = .ok spot := by
  have hproper := hstraight.of_append.proper step List.mem_cons_self
  obtain ⟨node, hnode, hlink⟩ := hstraight.of_append.stands
  have hdir : ¬ (!tree.isDirAt here) = true := fun hnot => by
    rw [walkSteps, if_pos hnot] at h
    cases h
  have hpass : ¬ (!(tree.dirRights here).pass) = true := fun hnot => by
    rw [walkSteps, if_neg hdir, if_neg hproper.nonempty, if_pos hnot] at h
    cases h
  have hlong : ¬ maxNameLength < step.length := fun hnot => by
    rw [walkSteps, if_neg hdir, if_neg hproper.nonempty, if_neg hpass, if_neg hproper.dot,
      if_neg hproper.dotDot, if_neg (by exact Bool.false_ne_true), if_pos hnot] at h
    cases h
  have henters : tree.Enters false here step rest :=
    ⟨hdir, hproper.nonempty, hpass, hproper.dot, hproper.dotDot, Bool.false_ne_true, hlong⟩
  rw [walkSteps_of_enters follow henters, hnode] at h
  refine ⟨Nat.not_lt.1 hlong, by simpa using hpass, ?_⟩
  cases node with
  | link target => exact absurd rfl (hlink target)
  | _ => exact h

theorem fit_of_walkSteps {follow : Follow} {spot : Spot}
    (hstraight : tree.Straight (todo.reverse ++ here))
    (h : tree.walkSteps false follow here todo = .ok spot) :
    ∀ name ∈ todo, Name.Fit name := by
  induction todo generalizing here with
  | nil =>
    intro name hmem
    cases hmem
  | cons step rest ih =>
    rw [reverse_cons_append] at hstraight
    obtain ⟨hlength, -, hrest⟩ := walkSteps_cons_of_straight hstraight h
    have hproper := hstraight.of_append.proper step List.mem_cons_self
    exact List.forall_mem_cons.2 ⟨⟨hproper, hlength⟩, ih hstraight hrest⟩

/-- A walk to a straight place goes through every directory above it. -/
theorem passes_of_walkSteps {follow : Follow} {spot : Spot}
    (hstraight : tree.Straight (todo.reverse ++ here))
    (h : tree.walkSteps false follow here todo = .ok spot)
    (hhere : ∀ name above, name :: above <:+ here → (tree.dirRights above).pass = true) :
    ∀ name above, name :: above <:+ todo.reverse ++ here →
      (tree.dirRights above).pass = true := by
  -- Where the walk has come to, it went through what is above.
  induction todo generalizing here with
  | nil => exact hhere
  | cons step rest ih =>
    rw [reverse_cons_append] at hstraight ⊢
    obtain ⟨-, hpass, hrest⟩ := walkSteps_cons_of_straight hstraight h
    refine ih hstraight hrest fun name above hsuffix => ?_
    rcases List.suffix_cons_iff.1 hsuffix with heq | hsuffix
    · rw [(List.cons.inj heq).2]
      exact hpass
    · exact hhere name above hsuffix

/-- **Proper names resolve to the place that they make,** if nothing on the way is a link. -/
theorem resolve_of_straight {links : Nat} {found : Place}
    (hstraight : tree.Straight (todo.reverse ++ here))
    (h : tree.resolve links here todo = .ok found) : found = todo.reverse ++ here := by
  fun_induction resolve tree links here todo with
  | case1 links here =>
    cases h
    rfl
  | case2 links here step rest hstays ih =>
    rw [reverse_cons_append] at hstraight
    have hproper := hstraight.of_append.proper step List.mem_cons_self
    exact absurd hstays (not_or.2 ⟨hproper.nonempty, hproper.dot⟩)
  | case3 links here rest hstays ih =>
    rw [reverse_cons_append] at hstraight
    exact absurd rfl (hstraight.of_append.proper _ List.mem_cons_self).dotDot
  | case10 here step rest hstays hup hlength hdir hpass hlong target hnode links ih =>
    rw [reverse_cons_append] at hstraight
    obtain ⟨node, hsome, hlink⟩ := hstraight.of_append.stands
    rw [hnode] at hsome
    exact absurd (Option.some.inj hsome).symm (hlink target)
  | case11 links here step rest hstays hup hlength hdir hpass hlong node hlink hnode go hasks ih =>
    rw [reverse_cons_append] at hstraight ⊢
    obtain ⟨_, -, h⟩ := except_bind_eq_ok.1 h
    exact ih hstraight h
  | case12 links here step rest hstays hup hlength hdir hpass hlong node hlink hnode go hasks ih =>
    rw [reverse_cons_append] at hstraight ⊢
    exact ih hstraight h
  | _ => cases h

end Along

/-! ## Paths that lead to themselves -/

theorem startOf_of_isAbsolute {path : Path} (habsolute : path.isAbsolute = true)
    (hnul : path.contains 0 = false) : startOf base path = .ok [] := by
  unfold startOf
  rw [hnul, habsolute]
  cases path with
  | nil => cases habsolute
  | cons byte bytes => rfl

/-- A path from the root is taken if it is not too long. -/
theorem startWithin_eq_ok {path : Path} {start : Place} (habsolute : path.isAbsolute = true) :
    startWithin base path = .ok start ↔
      path.contains 0 = false ∧ path.length ≤ maxPathLength ∧ start = [] := by
  unfold startWithin
  cases hnul : path.contains 0 with
  | true =>
    unfold startOf
    rw [if_pos hnul]
    simp
  | false =>
    rw [startOf_of_isAbsolute habsolute hnul]
    by_cases hlength : path.length ≤ maxPathLength
    · simp [hlength, Nat.not_lt.2 hlength, eq_comm]
    · simp [hlength, Nat.not_le.1 hlength]

/-- A walk takes its steps up to the first link, and goes on from there in some way. -/
theorem exists_walkSteps (tree : FileTree) (links : Nat) :
    ∃ follow, tree.walk false links = tree.walkSteps false follow := by
  cases links with
  | zero => exact ⟨_, rfl⟩
  | succ links => exact ⟨_, rfl⟩

/-- **An open directory is entered by its path,** from wherever one is. -/
theorem Admits.exists_workDirOf (h : tree.Admits place) (base : Option Place) :
    ∃ dir, tree.workDirOf base (Place.path place) = .ok dir := by
  obtain ⟨hfit, hopens⟩ := h
  obtain ⟨number, rights, hnode, hpass⟩ := hopens.exists_dir
  obtain ⟨follow, hfollow⟩ := exists_walkSteps tree maxLinks
  have hstart : startWithin base (Place.path place) = .ok [] :=
    (startWithin_eq_ok (Place.isAbsolute_path place)).2 ⟨hfit.nul, hfit.length, rfl⟩
  have hwalk : tree.walk false maxLinks [] (Place.path place).steps = .ok (.found place) := by
    rw [hfollow]
    by_cases hnil : place = []
    · rw [hnil]
      rfl
    · rw [Place.steps_path hfit.proper hnil]
      have hfound := @walkSteps_of_opens tree [] (List.reverse place) follow
        (by rwa [Place.from_root]) hfit.reverse
      rwa [Place.from_root] at hfound
  have hlook : tree.look base (Place.path place) = .ok (place, .dir number rights) := by
    rw [look, find, locate, hstart, except_ok_bind, hwalk, except_ok_bind, Spot.place,
      except_ok_bind, hnode]
  refine ⟨⟨place, number⟩, ?_⟩
  rw [workDirOf, hlook]
  exact if_pos hpass

theorem resolve_root (links : Nat) : tree.resolve links [] (Place.path []).steps = .ok [] := by
  show tree.resolve links [] [Path.slashStep] = _
  rw [resolve, if_pos (.inl rfl), resolve]

/-- **The path of an open directory is its own canonical path.** -/
theorem Admits.canonical (h : tree.Admits place) (base : Option Place) :
    tree.canonical base (Place.path place) = .ok (Place.path place) := by
  obtain ⟨hfit, hopens⟩ := h
  have hresolve : tree.resolve maxLinks [] (Place.path place).steps = .ok place := by
    by_cases hnil : place = []
    · rw [hnil, resolve_root]
    · rw [Place.steps_path hfit.proper hnil]
      have hfound := @resolve_of_opens tree [] (List.reverse place) maxLinks
        (by rwa [Place.from_root]) hfit.reverse (by rw [Place.from_root]; exact hfit.length)
      rwa [Place.from_root] at hfound
  rw [FileTree.canonical, startOf_of_isAbsolute (Place.isAbsolute_path place) hfit.nul,
    except_ok_bind, hresolve]
  rfl

/-- What is found by the path of a place is found by a walk along the names of the place. -/
theorem exists_walkSteps_of_look {found : Place × Node} (hproper : Place.Proper place)
    (h : tree.look base (Place.path place) = .ok found) :
    (Place.path place).contains 0 = false ∧ (Place.path place).length ≤ maxPathLength ∧
      ∃ follow spot, tree.walkSteps false follow [] (List.reverse place) = .ok spot := by
  obtain ⟨here, hfind, -⟩ := except_bind_eq_ok.1 h
  obtain ⟨spot, hlocate, -⟩ := except_bind_eq_ok.1 hfind
  obtain ⟨start, hstart, hwalk⟩ := except_bind_eq_ok.1 hlocate
  obtain ⟨hnul, hlength, rfl⟩ := (startWithin_eq_ok (Place.isAbsolute_path place)).1 hstart
  obtain ⟨follow, hfollow⟩ := exists_walkSteps tree maxLinks
  refine ⟨hnul, hlength, follow, ?_⟩
  by_cases hnil : place = []
  · rw [hnil]
    exact ⟨_, rfl⟩
  · rw [hfollow, Place.steps_path hproper hnil] at hwalk
    exact ⟨spot, hwalk⟩

/-- **No other directory is entered by its path.** -/
theorem admits_of_workDirOf {dir : WorkDir} (hstraight : tree.Straight place)
    (h : tree.workDirOf base (Place.path place) = .ok dir) : tree.Admits place := by
  unfold workDirOf at h
  split at h
  · next found number rights hlook =>
    split_ifs at h with hpass
    obtain ⟨rfl, hnode⟩ := look_path hstraight hlook
    obtain ⟨hnul, hlength, follow, spot, hwalk⟩ := exists_walkSteps_of_look hstraight.proper hlook
    have hnames := fit_of_walkSteps (by rwa [Place.from_root]) hwalk
    have habove := passes_of_walkSteps (by rwa [Place.from_root]) hwalk fun _ _ hsuffix =>
      absurd (List.suffix_nil.1 hsuffix) (List.cons_ne_nil _ _)
    rw [Place.from_root] at habove
    refine ⟨⟨fun name hmem => hnames name (List.mem_reverse.2 hmem), hnul, hlength⟩, ?_, ?_⟩
    · rw [isDirAt, hnode]
      rfl
    · rintro above ⟨below, hbelow⟩
      rcases List.eq_nil_or_concat' below with rfl | ⟨front, name, rfl⟩
      · rw [List.nil_append] at hbelow
        rw [hbelow, dirRights, hnode]
        exact hpass
      · refine habove name above ⟨front, ?_⟩
        rw [← hbelow, List.append_assoc, List.singleton_append]
  · cases h
  · cases h

/-- The path of a straight place has no canonical path but itself. -/
theorem canonical_path {resolved : Path} (hstraight : tree.Straight place)
    (h : tree.canonical base (Place.path place) = .ok resolved) : resolved = Place.path place := by
  obtain ⟨start, hstart, h⟩ := except_bind_eq_ok.1 h
  obtain ⟨found, hresolve, h⟩ := except_bind_eq_ok.1 h
  cases h
  rw [eq_nil_of_startOf (Place.isAbsolute_path place) hstart] at hresolve
  refine congrArg Place.path ?_
  by_cases hnil : place = []
  · rw [hnil, resolve_root] at hresolve
    cases hresolve
    rw [hnil]
  · rw [Place.steps_path hstraight.proper hnil] at hresolve
    rw [resolve_of_straight (by rwa [Place.from_root]) hresolve, Place.from_root]

theorem isDir_of_workDirOf {path : Path} {dir : WorkDir}
    (h : tree.workDirOf base path = .ok dir) : tree.isDir base path = true := by
  unfold workDirOf at h
  unfold isDir
  split at h
  · next found number rights hlook => rw [hlook]
  · cases h
  · cases h

/-! ## Paths from a directory that one is in -/

theorem straight_of_placeOf {other : Place} {number : Nat} (hproper : Place.Proper place)
    (h : tree.placeOf other number = some place) : tree.Straight place := by
  have hnumber : tree.isNumberAt place number = true := by
    unfold placeOf at h
    split at h
    · next hnumber =>
      cases h
      exact hnumber
    · have hfound := List.find?_some h
      exact hfound
  refine ⟨hproper, ?_⟩
  unfold isNumberAt at hnumber
  split at hnumber
  · next node rights hnode => exact ⟨_, hnode, fun target hlink => by cases hlink⟩
  · cases hnumber

/-- A canonical path leads to a straight place, whether it is found from the root or from a straight
place. -/
theorem exists_of_canonical_from {path resolved : Path}
    (hfrom : path.isAbsolute = true ∨ ∀ place, base = some place → tree.Straight place)
    (h : tree.canonical base path = .ok resolved) :
    ∃ place, tree.Straight place ∧ resolved = Place.path place := by
  rcases hfrom with habsolute | hbase
  · exact exists_of_canonical habsolute h
  · obtain ⟨start, hstart, h⟩ := except_bind_eq_ok.1 h
    obtain ⟨place, hresolve, h⟩ := except_bind_eq_ok.1 h
    cases h
    have hstraight : tree.Straight start := by
      unfold startOf at hstart
      split_ifs at hstart
      · cases hstart
        exact straight_nil
      · split at hstart
        · cases hstart
          exact hbase _ rfl
        · cases hstart
    exact ⟨place, straight_of_resolve hstraight (Path.slash_not_mem_steps path) hresolve, rfl⟩

end FileTree

end LineShell
