import LineShell.Proofs.Files.Naming
import Mathlib.Data.List.Basic
/-!
A canonical path leads back to the place that it was made for.

Such a place is made of proper names, and no link stands there (`FileTree.straight_of_resolve`): the
steps onto it were taken one by one, a link was replaced by the steps of its target, and what stands
somewhere stands in a directory. The steps of its path are its names. So a walk along them meets no
link and ends at the place itself, if the rights on the way let it (`FileTree.look_path`).
-/

set_option autoImplicit false

namespace LineShell

/-! ## The path of a place -/

/-- A name that a path can lead through: it is not empty, has no slash, and is neither of the steps
made of dots. -/
structure Name.Proper (name : Name) : Prop where
  nonempty : name ≠ Path.slashStep
  slash : Path.slash ∉ name
  dot : name ≠ Path.dot
  dotDot : name ≠ Path.dotDot

instance (name : Name) : Decidable (Name.Proper name) :=
  decidable_of_iff (name ≠ Path.slashStep ∧ Path.slash ∉ name ∧ name ≠ Path.dot ∧
      name ≠ Path.dotDot)
    ⟨fun h => ⟨h.1, h.2.1, h.2.2.1, h.2.2.2⟩, fun h => ⟨h.nonempty, h.slash, h.dot, h.dotDot⟩⟩

/-- A place that is made of proper names. -/
def Place.Proper (place : Place) : Prop := ∀ name ∈ place, Name.Proper name

instance (place : Place) : Decidable (Place.Proper place) :=
  inferInstanceAs (Decidable (∀ name ∈ place, Name.Proper name))

namespace Path

variable {names : List Name}

/-- Names with a slash in front of each are the same with slashes in between, behind a first one. -/
theorem flatMap_slash (name : Name) (names : List Name) :
    (name :: names).flatMap (slash :: ·) = slash :: [slash].intercalate (name :: names) := by
  induction names generalizing name with
  | nil => simp
  | cons next names ih =>
    rw [List.flatMap_cons, ih, List.intercalate_cons_cons]
    simp

theorem names_flatMap (h : ∀ name ∈ names, Name.Proper name) (hne : names ≠ []) :
    Path.names (names.flatMap (slash :: ·)) = names := by
  obtain ⟨name, rest, rfl⟩ := List.exists_cons_of_ne_nil hne
  have hslash : ∀ text ∈ [] :: name :: rest, slash ∉ text := by
    rintro text (_ | ⟨_, hmem⟩)
    · exact List.not_mem_nil
    · exact (h text hmem).slash
  have htext : (name :: rest).flatMap (slash :: ·)
      = [slash].intercalate ([] :: name :: rest) := by
    rw [flatMap_slash, List.intercalate_cons_cons]
    rfl
  have hkept : (name :: rest).filter (fun text => !text.isEmpty) = name :: rest := by
    refine List.filter_eq_self.2 fun text hmem => ?_
    simpa [slashStep] using (h text hmem).nonempty
  rw [Path.names, htext, List.splitOn_intercalate slash hslash (List.cons_ne_nil _ _),
    List.filter_cons_of_neg (by simp), hkept]

theorem endsInSlash_flatMap (h : ∀ name ∈ names, Name.Proper name) (hne : names ≠ []) :
    endsInSlash (names.flatMap (slash :: ·)) = false := by
  obtain ⟨front, last, rfl⟩ := (List.eq_nil_or_concat' names).resolve_left hne
  have hlast := h last (List.mem_append_right _ List.mem_cons_self)
  have hnonempty : last ≠ [] := hlast.nonempty
  obtain ⟨rest, byte, rfl⟩ := (List.eq_nil_or_concat' last).resolve_left hnonempty
  have hbyte : byte ≠ slash := by
    rintro rfl
    exact hlast.slash (by simp)
  rw [endsInSlash, List.flatMap_append, List.flatMap_singleton]
  simpa [List.getLast?_append, List.getLast?_cons] using hbyte

end Path

namespace Place

variable {place : Place}

theorem path_of_ne_nil (h : place ≠ []) :
    Place.path place = List.flatMap (Path.slash :: ·) (List.reverse place) := by
  cases place with
  | nil => exact absurd rfl h
  | cons name above => rfl

/-- **The steps of a path** that was made for a place are the names of the place. -/
theorem steps_path (h : Place.Proper place) (hne : place ≠ []) :
    Path.steps (Place.path place) = List.reverse place := by
  have hnames : ∀ name ∈ List.reverse place, Name.Proper name :=
    fun name hmem => h name (List.mem_reverse.1 hmem)
  have hsome : List.reverse place ≠ [] := by simpa using hne
  rw [Path.steps, path_of_ne_nil hne, Path.endsInSlash_flatMap hnames hsome,
    Path.names_flatMap hnames hsome]
  rfl

theorem isAbsolute_path (place : Place) : Path.isAbsolute (Place.path place) = true := by
  cases place with
  | nil => rfl
  | cons name above =>
    rw [path_of_ne_nil (List.cons_ne_nil _ _)]
    obtain ⟨first, rest, hreverse⟩ :=
      List.exists_cons_of_ne_nil (show List.reverse (name :: above) ≠ [] by simp)
    rw [hreverse]
    rfl

end Place

/-! ## Steps without slashes -/

namespace Path

theorem isAbsolute_join {first : Path} (h : first.isAbsolute = true) (second : Path) :
    (join first second).isAbsolute = true := by
  cases first with
  | nil => cases h
  | cons byte rest =>
    unfold join
    split_ifs with hsecond
    · exact hsecond
    · exact h
    · exact h

theorem slash_not_mem_splitOn (path : Path) : ∀ text ∈ path.splitOn slash, slash ∉ text := by
  induction path with
  | nil => simp
  | cons byte path ih =>
    rw [List.splitOn_cons_eq_if_modifyHead]
    split
    · rintro text (_ | ⟨_, hmem⟩)
      · exact List.not_mem_nil
      · exact ih text hmem
    · next hbyte =>
      obtain ⟨head, tail, hsplit⟩ := List.exists_cons_of_ne_nil (List.splitOn_ne_nil slash path)
      rw [hsplit] at ih ⊢
      rintro text (_ | ⟨_, hmem⟩)
      · rintro (_ | ⟨_, hmem⟩)
        · exact hbyte (beq_self_eq_true slash)
        · exact ih head List.mem_cons_self hmem
      · exact ih text (List.mem_cons_of_mem head hmem)

theorem slash_not_mem_steps (path : Path) : ∀ step ∈ path.steps, slash ∉ step := by
  have hnames : ∀ step ∈ path.names, slash ∉ step :=
    fun step hmem => slash_not_mem_splitOn path step (List.mem_of_mem_filter hmem)
  intro step hmem
  unfold steps at hmem
  split at hmem
  · rcases List.mem_append.1 hmem with hmem | hmem
    · exact hnames step hmem
    · rw [List.mem_singleton.1 hmem]
      exact List.not_mem_nil
  · exact hnames step hmem

end Path

namespace FileTree

variable {tree : FileTree}

theorem lookup_of_mem {α β : Type} [BEq α] [LawfulBEq α] {l : List (α × β)} {a : α} {b : β}
    (hdistinct : (l.map Prod.fst).Nodup) (h : (a, b) ∈ l) : l.lookup a = some b := by
  induction l with
  | nil => cases h
  | cons head rest ih =>
    obtain ⟨key, value⟩ := head
    obtain ⟨hkey, hrest⟩ := List.nodup_cons.1 hdistinct
    rcases List.mem_cons.1 h with heq | hmem
    · cases heq
      exact List.lookup_cons_self
    · have hne : (a == key) = false := by
        rw [beq_eq_false_iff_ne]
        rintro rfl
        exact hkey (List.mem_map.2 ⟨(a, b), hmem, rfl⟩)
      rw [List.lookup_cons, hne]
      exact ih hrest hmem

/-! ## Where resolving leads -/

/-- **A straight place** is made of proper names, and what stands there is no link. -/
structure Straight (tree : FileTree) (place : Place) : Prop where
  proper : Place.Proper place
  stands : ∃ node, tree.node? place = some node ∧ ∀ target, node ≠ .link target

theorem straight_nil : tree.Straight [] := by
  refine ⟨fun name hmem => absurd hmem List.not_mem_nil, .dir rootNumber tree.root, rfl, ?_⟩
  rintro target ⟨⟩

/-- What stands somewhere stands in a directory, and a directory is no link. -/
theorem Straight.tail {place : Place} (h : tree.Straight place) : tree.Straight place.tail := by
  cases place with
  | nil => exact h
  | cons name above =>
    obtain ⟨node, hnode, -⟩ := h.stands
    refine ⟨fun other hmem => h.proper other (List.mem_cons_of_mem name hmem), ?_⟩
    cases above with
    | nil => exact straight_nil.stands
    | cons next rest =>
      rcases tree.hosted _ (mem_of_lookup hnode) with hnil | ⟨dir, hmem, hdir⟩
      · cases hnil
      · refine ⟨dir, lookup_of_mem tree.distinct hmem, ?_⟩
        rintro target rfl
        cases hdir

/-- **Resolving leads to a straight place** if it starts at one. -/
theorem straight_of_resolve {links : Nat} {here place : Place} {todo : List Bytes}
    (hhere : tree.Straight here) (htodo : ∀ step ∈ todo, Path.slash ∉ step)
    (h : tree.resolve links here todo = .ok place) : tree.Straight place := by
  have hrest {step : Bytes} {rest : List Bytes} (htodo : ∀ other ∈ step :: rest,
      Path.slash ∉ other) : ∀ other ∈ rest, Path.slash ∉ other :=
    fun other hmem => htodo other (List.mem_cons_of_mem step hmem)
  have hstep {here : Place} {step : Bytes} {rest : List Bytes} {node : Node}
      (hhere : tree.Straight here) (htodo : ∀ other ∈ step :: rest, Path.slash ∉ other)
      (hstays : ¬ (step = Path.slashStep ∨ step = Path.dot)) (hup : ¬ step = Path.dotDot)
      (hlink : ∀ target, node = .link target → False)
      (hnode : tree.node? (step :: here) = some node) : tree.Straight (step :: here) := by
    refine ⟨?_, node, hnode, hlink⟩
    rintro name (_ | ⟨_, hmem⟩)
    · obtain ⟨hslash, hdot⟩ := not_or.1 hstays
      exact ⟨hslash, htodo step List.mem_cons_self, hdot, hup⟩
    · exact hhere.proper name hmem
  fun_induction resolve tree links here todo with
  | case1 links here =>
    cases h
    exact hhere
  | case2 links here step rest hstays ih => exact ih hhere (hrest htodo) h
  | case3 links here rest hstays ih => exact ih hhere.tail (hrest htodo) h
  | case10 here step rest hstays hup hlength hdir hpass hlong target hnode links ih =>
    refine ih ?_ ?_ h
    · split
      · exact straight_nil
      · exact hhere
    · intro other hmem
      rcases List.mem_append.1 hmem with hmem | hmem
      · exact Path.slash_not_mem_steps target other hmem
      · exact hrest htodo other hmem
  | case11 links here step rest hstays hup hlength hdir hpass hlong node hlink hnode go hasks ih =>
    obtain ⟨_, -, h⟩ := except_bind_eq_ok.1 h
    exact ih (hstep hhere htodo hstays hup hlink hnode) (hrest htodo) h
  | case12 links here step rest hstays hup hlength hdir hpass hlong node hlink hnode go hasks ih =>
    exact ih (hstep hhere htodo hstays hup hlink hnode) (hrest htodo) h
  | _ => cases h

/-! ## Walking to a straight place -/

theorem Straight.of_append {below : List Name} {place : Place}
    (h : tree.Straight (below ++ place)) : tree.Straight place := by
  induction below with
  | nil => exact h
  | cons name below ih => exact ih h.tail

/-- Proper names lead to the place that they make, if nothing on the way is a link. -/
theorem walkSteps_of_straight {follow : Follow} {here : Place} {todo : List Bytes} {spot : Spot}
    (hstraight : tree.Straight (todo.reverse ++ here))
    (h : tree.walkSteps false follow here todo = .ok spot) :
    spot = .found (todo.reverse ++ here) := by
  have hnext {here : Place} {step : Bytes} {rest : List Bytes}
      (hstraight : tree.Straight ((step :: rest).reverse ++ here)) :
      tree.Straight (rest.reverse ++ step :: here) := by
    rwa [List.reverse_cons, List.append_assoc] at hstraight
  fun_induction walkSteps tree false follow here todo with
  | case1 here =>
    cases h
    rfl
  | case3 here rest hdir ih =>
    exact absurd rfl ((hnext hstraight).of_append.proper _ List.mem_cons_self).nonempty
  | case5 here rest hdir hpass hslash ih =>
    exact absurd rfl ((hnext hstraight).of_append.proper _ List.mem_cons_self).dot
  | case6 here rest hdir hpass hslash hdot ih =>
    exact absurd rfl ((hnext hstraight).of_append.proper _ List.mem_cons_self).dotDot
  | case9 here step rest hdir hslash hpass hdot hdots hmaking hlong hnode hrest =>
    obtain ⟨node, hsome, -⟩ := (hnext hstraight).of_append.stands
    rw [hnode] at hsome
    cases hsome
  | case11 here step rest hdir hslash hpass hdot hdots hmaking hlong target hnode =>
    obtain ⟨node, hsome, hlink⟩ := (hnext hstraight).of_append.stands
    rw [hnode] at hsome
    exact absurd (Option.some.inj hsome).symm (hlink target)
  | case12 here step rest hdir hslash hpass hdot hdots hmaking hlong node hlink hnode ih =>
    rw [ih (hnext hstraight) h, List.reverse_cons, List.append_assoc]
    rfl
  | _ => cases h

theorem walk_path {links : Nat} {place : Place} {spot : Spot} (hstraight : tree.Straight place)
    (h : tree.walk false links [] (Place.path place).steps = .ok spot) :
    spot = .found place := by
  have hwalk {follow : Follow}
      (h : tree.walkSteps false follow [] (Place.path place).steps = .ok spot) :
      spot = .found place := by
    by_cases hnil : place = []
    · subst hnil
      have hroot : tree.walkSteps false follow [] (Place.path []).steps = .ok (.found []) := rfl
      rw [hroot] at h
      cases h
      rfl
    · rw [Place.steps_path hstraight.proper hnil] at h
      have hfound := walkSteps_of_straight (by simpa using hstraight) h
      simpa using hfound
  cases links with
  | zero => exact hwalk h
  | succ links => exact hwalk h

theorem eq_nil_of_startOf {base : Option Place} {path : Path} {start : Place}
    (habsolute : path.isAbsolute = true) (h : startOf base path = .ok start) : start = [] := by
  unfold startOf at h
  split_ifs at h
  cases h
  rfl

/-- **A canonical path leads back** to the place that it was made for. -/
theorem look_path {base : Option Place} {place found : Place} {node : Node}
    (hstraight : tree.Straight place) (h : tree.look base (Place.path place) = .ok (found, node)) :
    found = place ∧ tree.node? place = some node := by
  obtain ⟨here, hfind, hlook⟩ := except_bind_eq_ok.1 h
  obtain ⟨spot, hlocate, hspot⟩ := except_bind_eq_ok.1 hfind
  obtain ⟨start, hstart, hwalk⟩ := except_bind_eq_ok.1 hlocate
  unfold startWithin at hstart
  split_ifs at hstart
  rw [eq_nil_of_startOf (Place.isAbsolute_path place) hstart] at hwalk
  rw [walk_path hstraight hwalk] at hspot
  cases hspot
  cases hnode : tree.node? place with
  | none =>
    rw [hnode] at hlook
    cases hlook
  | some other =>
    rw [hnode] at hlook
    cases hlook
    exact ⟨rfl, rfl⟩

theorem exists_of_canonical {base : Option Place} {path resolved : Path}
    (habsolute : path.isAbsolute = true) (h : tree.canonical base path = .ok resolved) :
    ∃ place, tree.Straight place ∧ resolved = Place.path place := by
  obtain ⟨start, hstart, h⟩ := except_bind_eq_ok.1 h
  obtain ⟨place, hresolve, h⟩ := except_bind_eq_ok.1 h
  cases h
  rw [eq_nil_of_startOf habsolute hstart] at hresolve
  have hsteps := Path.slash_not_mem_steps path
  exact ⟨place, straight_of_resolve straight_nil hsteps hresolve, rfl⟩

end FileTree

end LineShell
