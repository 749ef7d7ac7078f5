import LineShell.Proofs.Files.Naming
/-!
Opening a file and putting bytes behind it.

Both change one file at most, so whatever a path named before it names afterwards (`KeepsNames`).
-/

set_option autoImplicit false

namespace LineShell

theorem lookup_map_if {α β : Type} [BEq α] [LawfulBEq α] [DecidableEq α] (entries : List (α × β))
    (a b : α) (f : β → β) :
    (entries.map fun e => if e.1 = a then (e.1, f e.2) else e).lookup b
      = if b = a then (entries.lookup b).map f else entries.lookup b := by
  induction entries with
  | nil => split <;> rfl
  | cons e entries ih =>
    obtain ⟨key, value⟩ := e
    rw [List.map_cons]
    by_cases hb : b = key
    · subst hb
      by_cases ha : b = a
      · rw [if_pos ha, if_pos ha, List.lookup_cons_self, List.lookup_cons_self, Option.map_some]
      · rw [if_neg ha, if_neg ha, List.lookup_cons_self, List.lookup_cons_self]
    · have hbeq : (b == key) = false := by rw [beq_eq_false_iff_ne]; exact hb
      have hkey : (if key = a then (key, f value) else (key, value)).1 = key := by split <;> rfl
      rw [List.lookup_cons, hkey, hbeq, List.lookup_cons, hbeq]
      exact ih

namespace FileTree

variable {tree later : FileTree}

/-! ## Changes that paths do not see -/

/-- Every path names what it named, and every directory stands where it stood. -/
structure KeepsNames (tree later : FileTree) : Prop where
  names : ∀ base path place, later.Names base path place ↔ tree.Names base path place
  placeOf : ∀ place number, later.placeOf place number = tree.placeOf place number

theorem KeepsNames.refl (tree : FileTree) : tree.KeepsNames tree :=
  ⟨fun _ _ _ => Iff.rfl, fun _ _ => rfl⟩

theorem KeepsNames.trans {last : FileTree} (h : tree.KeepsNames later)
    (h' : later.KeepsNames last) : tree.KeepsNames last :=
  ⟨fun base path place => (h'.names base path place).trans (h.names base path place),
    fun place number => (h'.placeOf place number).trans (h.placeOf place number)⟩

theorem Grows.keepsNames {place : Place} (h : Grows place tree later) : tree.KeepsNames later :=
  ⟨fun _ _ _ => names_of_grows h, h.placeOf⟩

/-- A path names one place at most. -/
theorem Names.unique {base : Option Place} {path : Path} {place other : Place}
    (h : tree.Names base path place) (h' : tree.Names base path other) : place = other :=
  Option.some.inj (h.symm.trans h')

/-! ## One file made, one file written -/

theorem node?_of_ne_nil {place : Place} (h : place ≠ []) :
    tree.node? place = tree.entries.lookup place := by
  cases place with
  | nil => exact absurd rfl h
  | cons name above => rfl

theorem add_of_free {name : Name} {above : Place} (node : Node) (hdir : tree.isDirAt above = true)
    (hfree : tree.node? (name :: above) = none) :
    (tree.add name above node).root = tree.root ∧
      (tree.add name above node).entries = (name :: above, node) :: tree.entries := by
  have hboth : tree.isDirAt above = true ∧ tree.entries.lookup (name :: above) = none :=
    ⟨hdir, hfree⟩
  unfold add
  rw [dif_pos hboth]
  exact ⟨rfl, rfl⟩

theorem node?_add {name : Name} {above : Place} (node : Node) (hdir : tree.isDirAt above = true)
    (hfree : tree.node? (name :: above) = none) (place : Place) :
    (tree.add name above node).node? place
      = if place = name :: above then some node else tree.node? place := by
  obtain ⟨hroot, hentries⟩ := add_of_free node hdir hfree
  cases place with
  | nil =>
    rw [if_neg (List.cons_ne_nil _ _).symm]
    show some (Node.dir rootNumber _) = some (.dir rootNumber _)
    rw [hroot]
  | cons next rest =>
    rw [node?_of_ne_nil (List.cons_ne_nil _ _), node?_of_ne_nil (List.cons_ne_nil _ _), hentries]
    by_cases hsame : (next :: rest : Place) = name :: above
    · rw [if_pos hsame, hsame, List.lookup_cons_self]
    · rw [if_neg hsame, List.lookup_cons, beq_eq_false_iff_ne.2 hsame]

theorem node?_addDir {name : Name} {above : Place} (rights : Rights)
    (hdir : tree.isDirAt above = true) (hfree : tree.node? (name :: above) = none) (place : Place) :
    (tree.addDir name above rights).node? place
      = if place = name :: above then some (.dir tree.fresh rights) else tree.node? place := by
  rw [← node?_add _ hdir hfree]
  cases place with
  | nil => rfl
  | cons next rest => rfl

/-- **A file is made** at a free name in a directory. -/
theorem grows_add {name : Name} {above : Place} (data : Bytes) (rights : Rights)
    (hdir : tree.isDirAt above = true) (hfree : tree.node? (name :: above) = none) :
    Grows (name :: above) tree (tree.add name above (.file data rights)) ∧
      (tree.add name above (.file data rights)).node? (name :: above)
        = some (.file data rights) := by
  have hlookup := node?_add (.file data rights) hdir hfree
  have hnew : (tree.add name above (.file data rights)).node? (name :: above)
      = some (.file data rights) := by
    rw [hlookup, if_pos rfl]
  refine ⟨⟨fun node hnode => ?_, ⟨data, rights, hnew⟩, fun other hother => ?_,
    fun test htest => ?_⟩, hnew⟩
  · rw [hfree] at hnode
    cases hnode
  · rw [hlookup, if_neg hother]
  · rw [(add_of_free (.file data rights) hdir hfree).2, List.map_cons, List.find?_cons, htest]

/-- **A file is written.** -/
theorem grows_setData {place : Place} {data : Bytes} {rights : Rights}
    (h : tree.node? place = some (.file data rights)) (bytes : Bytes) :
    Grows place tree (tree.setData place bytes) ∧
      (tree.setData place bytes).node? place = some (.file bytes rights) := by
  have hne : place ≠ [] := by
    rintro rfl
    cases h
  have hlookup : ∀ other : Place, other ≠ [] → (tree.setData place bytes).node? other
      = if other = place then (tree.node? other).map (Node.withData bytes)
        else tree.node? other := by
    intro other hother
    rw [node?_of_ne_nil hother, node?_of_ne_nil hother]
    exact lookup_map_if tree.entries place other (Node.withData bytes)
  have hnew : (tree.setData place bytes).node? place = some (.file bytes rights) := by
    rw [hlookup place hne, if_pos rfl, h]
    rfl
  refine ⟨⟨fun node hnode => ?_, ⟨bytes, rights, hnew⟩, fun other hother => ?_,
    fun test _ => ?_⟩, hnew⟩
  · rw [h] at hnode
    exact ⟨data, rights, (Option.some.inj hnode).symm⟩
  · cases other with
    | nil => rfl
    | cons next rest => rw [hlookup _ (List.cons_ne_nil _ _), if_neg hother]
  · have hkeys : (tree.setData place bytes).entries.map Prod.fst = tree.entries.map Prod.fst := by
      show (tree.entries.map fun e => if e.1 = place then (e.1, _) else e).map Prod.fst = _
      rw [List.map_map]
      refine List.map_congr_left fun e _ => ?_
      rw [Function.comp]
      split <;> rfl
    rw [hkeys]

/-! ## Opening, appending, reading -/

theorem stands_of_isNumberAt {place : Place} {number : Nat}
    (h : tree.isNumberAt place number = true) : tree.Stands place := by
  unfold isNumberAt at h
  cases hnode : tree.node? place with
  | none =>
    rw [hnode] at h
    cases h
  | some node => exact ⟨node, hnode⟩

/-- A directory that is found by its number stands there. -/
theorem stands_of_placeOf {place found : Place} {number : Nat}
    (h : tree.placeOf place number = some found) : tree.Stands found := by
  unfold placeOf at h
  split at h
  · next hnumber =>
    rw [← Option.some.inj h]
    exact stands_of_isNumberAt hnumber
  · have hnumber := List.find?_some h
    exact stands_of_isNumberAt hnumber

theorem stands_of_startWithin {base : Option Place} {path : Path} {here : Place}
    (hbase : ∀ found, base = some found → tree.Stands found)
    (h : startWithin base path = .ok here) : tree.Stands here := by
  have hroot : tree.Stands [] := ⟨_, rfl⟩
  unfold startWithin startOf at h
  split_ifs at h
  · cases h
    exact hroot
  · cases base with
    | none => cases h
    | some found =>
      cases h
      exact hbase _ rfl

/-- What the spot of a path tells. -/
theorem settles_of_locate {base : Option Place} {path : Path} {spot : Spot}
    (hbase : ∀ found, base = some found → tree.Stands found)
    (h : tree.locate base path = .ok spot) : tree.Settles spot := by
  unfold locate at h
  cases hstart : startWithin base path with
  | error cause =>
    rw [hstart] at h
    cases h
  | ok here =>
    rw [hstart] at h
    exact settles_of_walk (stands_of_startWithin hbase hstart) h

/-- **Opening a file for writing** opens the one that the path names: it was there, or it is empty
now. -/
theorem openFile_eq_ok {base : Option Place} {path : Path} {rights : Rights} {place : Place}
    (hbase : ∀ found, base = some found → tree.Stands found)
    (h : tree.openFile base path rights = .ok (place, later)) :
    tree.Names base path place ∧
      (later = tree ∧ tree.Stands place ∨
        tree.node? place = none ∧ Grows place tree later ∧
          later.node? place = some (.file [] rights)) := by
  obtain ⟨here, hstart, h⟩ := except_bind_eq_ok.1 h
  obtain ⟨spot, hwalk, h⟩ := except_bind_eq_ok.1 h
  have hlocate : tree.locate base path = .ok spot := by
    unfold locate
    rw [hstart]
    exact walk_of_making hwalk
  have hnames : tree.Names base path spot.target := by
    unfold Names
    rw [hlocate]
    rfl
  have hsettles : tree.Settles spot := settles_of_locate hbase hlocate
  cases spot with
  | found spot =>
    have hsame : spot = place ∧ tree = later := by
      dsimp only at h
      split at h
      · cases h
      · split at h
        · cases h
          exact ⟨rfl, rfl⟩
        · cases h
      · cases h
        exact ⟨rfl, rfl⟩
    obtain ⟨rfl, rfl⟩ := hsame
    exact ⟨hnames, .inl ⟨rfl, hsettles⟩⟩
  | vacant name above =>
    dsimp only at h
    split at h
    · cases h
      have hgrows := grows_add [] rights hsettles.1 hsettles.2
      exact ⟨hnames, .inr ⟨hsettles.2, hgrows.1, hgrows.2⟩⟩
    · cases h

/-- **Bytes are put behind a file.** -/
theorem grows_appendAt {place : Place} {data : Bytes} {rights : Rights}
    (h : tree.node? place = some (.file data rights)) (bytes : Bytes) :
    Grows place tree (tree.appendAt place bytes) ∧
      (tree.appendAt place bytes).node? place = some (.file (data ++ bytes) rights) := by
  unfold appendAt
  rw [h]
  exact grows_setData h (data ++ bytes)

/-- **Where no file stands nothing is put.** -/
theorem appendAt_eq_or (tree : FileTree) (place : Place) (bytes : Bytes) :
    tree.appendAt place bytes = tree ∨ Grows place tree (tree.appendAt place bytes) := by
  cases hnode : tree.node? place with
  | none =>
    unfold appendAt
    rw [hnode]
    exact .inl rfl
  | some node =>
    cases node with
    | file data rights => exact .inr (grows_appendAt hnode bytes).1
    | dir number rights =>
      unfold appendAt
      rw [hnode]
      exact .inl rfl
    | link target =>
      unfold appendAt
      rw [hnode]
      exact .inl rfl
    | device device =>
      unfold appendAt
      rw [hnode]
      exact .inl rfl

/-- **Reading a path** reads what stands at the place that it names. -/
theorem read_of_names {base : Option Place} {path : Path} {place : Place}
    (hbase : ∀ found, base = some found → tree.Stands found) (h : tree.Names base path place) :
    tree.read base path =
      match tree.node? place with
      | some node => contents node
      | none => .error .missing := by
  obtain ⟨spot, hspot, htarget⟩ := Option.map_eq_some_iff.1 h
  cases hlocate : tree.locate base path with
  | error cause =>
    rw [hlocate] at hspot
    cases hspot
  | ok found =>
    rw [hlocate] at hspot
    cases hspot
    have hsettles : tree.Settles spot := settles_of_locate hbase hlocate
    have hfind : tree.find base path = spot.place := by
      unfold find
      rw [hlocate]
      rfl
    unfold read look
    rw [hfind, ← htarget]
    cases spot with
    | found place =>
      obtain ⟨node, hnode⟩ := hsettles
      rw [Spot.target, Spot.place, hnode]
      dsimp only
      show ((match tree.node? place with
        | some node => Except.ok (place, node)
        | none => Except.error Cause.missing) >>= fun found => contents found.2) = contents node
      rw [hnode]
      rfl
    | vacant name above =>
      rw [Spot.target, hsettles.2]
      rfl

end FileTree

end LineShell
