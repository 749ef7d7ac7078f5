import LineShell.Files.Path
/-!
File trees.

A place is a position in the tree, the names from the root down to it; it is kept with the
innermost name first, so that the directory above a place is its tail and the root is `[]`. A tree
is a list of places with what is there. Two facts hold of every tree and are part of the type: no
place is listed twice, and what stands at a place stands in a directory. Every directory carries a
number that no other directory of the tree has had before it, which tells a directory from another
one made later at the same place.
-/

set_option autoImplicit false

namespace LineShell

/-- A name in a directory. -/
abbrev Name := Bytes

/-- A position in a file tree, innermost name first. -/
abbrev Place := List Name

/-- The path of a place, from the root. -/
def Place.path : Place → Path
  | [] => [Path.slash]
  | place => place.reverse.flatMap (Path.slash :: ·)

/-- What may be done with a file or a directory. -/
structure Rights where
  /-- Read a file, or list a directory. -/
  read : Bool
  /-- Write a file, or change what is in a directory. -/
  write : Bool
  /-- Run a file, or go through a directory. -/
  pass : Bool
deriving DecidableEq, Repr

namespace Rights

/-- Everything may be done. -/
def all : Rights := ⟨true, true, true⟩

/-- A file may be read and written. -/
def plain : Rights := ⟨true, true, false⟩

/-- Nothing may be changed. -/
def fixed : Rights := ⟨true, false, true⟩

/-- No right at all. -/
def none : Rights := ⟨false, false, false⟩

/-- What one or the other allows. -/
def join (a b : Rights) : Rights := ⟨a.read || b.read, a.write || b.write, a.pass || b.pass⟩

/-- What one allows and the other does not. -/
def without (a b : Rights) : Rights := ⟨a.read && !b.read, a.write && !b.write, a.pass && !b.pass⟩

/-- The rights that a digit of four, two and one spells. -/
def ofDigit (n : Nat) : Rights := ⟨n / 4 % 2 == 1, n / 2 % 2 == 1, n % 2 == 1⟩

/-- The digit that spells rights. -/
def digit (rights : Rights) : Nat :=
  (if rights.read then 4 else 0) + (if rights.write then 2 else 0) + (if rights.pass then 1 else 0)

theorem ofDigit_digit (rights : Rights) : ofDigit rights.digit = rights := by
  obtain ⟨read, write, pass⟩ := rights
  cases read <;> cases write <;> cases pass <;> rfl

end Rights

/-- A file that stores nothing. -/
inductive Device where
  /-- It takes whatever is written. -/
  | null
  /-- It takes nothing. -/
  | full
deriving DecidableEq, Repr

/-- What stands at a place. -/
inductive Node where
  /-- A regular file. -/
  | file (data : Bytes) (rights : Rights)
  /-- A directory with its number. -/
  | dir (number : Nat) (rights : Rights)
  /-- A symbolic link. -/
  | link (target : Path)
  | device (device : Device)
deriving DecidableEq, Repr

namespace Node

/-- Whether a node is a directory. -/
def isDir : Node → Bool
  | dir .. => true
  | _ => false

/-- A node with new contents, if it is a file. -/
def withData (data : Bytes) : Node → Node
  | file _ rights => file data rights
  | other => other

/-- A node with new rights, if it has any. -/
def withRights (rights : Rights) : Node → Node
  | file data _ => file data rights
  | dir number _ => dir number rights
  | other => other

@[simp] theorem isDir_withData (data : Bytes) (node : Node) :
    (node.withData data).isDir = node.isDir := by
  cases node <;> rfl

@[simp] theorem isDir_withRights (rights : Rights) (node : Node) :
    (node.withRights rights).isDir = node.isDir := by
  cases node <;> rfl

end Node

/-- Whether a place is below a directory of the listed ones. -/
def Hosted (entries : List (Place × Node)) : Place → Prop
  | [] => False
  | _ :: above => above = [] ∨ ∃ node : Node, (above, node) ∈ entries ∧ node.isDir

/-- A tree of files. The root is a directory and is not listed. -/
structure FileTree where
  /-- What may be done with the root. -/
  root : Rights
  entries : List (Place × Node)
  /-- The number of the next directory. -/
  fresh : Nat
  distinct : (entries.map Prod.fst).Nodup
  hosted : ∀ e ∈ entries, Hosted entries e.1

namespace FileTree

/-- The number of the root directory. -/
def rootNumber : Nat := 0

/-- The tree with nothing but a root. -/
def empty : FileTree := ⟨.all, [], 1, .nil, by simp⟩

instance : Inhabited FileTree := ⟨empty⟩

/-- What stands at a place, if anything. -/
def node? (tree : FileTree) : Place → Option Node
  | [] => some (.dir rootNumber tree.root)
  | place => tree.entries.lookup place

/-- Whether a directory stands at a place. -/
def isDirAt (tree : FileTree) (place : Place) : Bool :=
  match tree.node? place with
  | some node => node.isDir
  | none => false

/-- What may be done with the directory at a place; nothing if there is none. -/
def dirRights (tree : FileTree) (place : Place) : Rights :=
  match tree.node? place with
  | some (.dir _ rights) => rights
  | _ => .none

/-- Whether the directory of a number stands at a place. -/
def isNumberAt (tree : FileTree) (place : Place) (number : Nat) : Bool :=
  match tree.node? place with
  | some (.dir n _) => n == number
  | _ => false

/-- Where the directory of a number stands, if it still does. It is looked for at one place first,
and then everywhere, as it may have been moved. -/
def placeOf (tree : FileTree) (place : Place) (number : Nat) : Option Place :=
  if tree.isNumberAt place number then some place
  else (tree.entries.map Prod.fst).find? fun place => tree.isNumberAt place number

/-- The names in a directory, each once, in no particular order. -/
def namesAt (tree : FileTree) (place : Place) : List Name :=
  tree.entries.filterMap fun
    | (name :: above, _) => if above = place then some name else none
    | ([], _) => none

/-! ## Changes

A change that would break the tree is not made: a node is added where nothing stands and below a
directory, what a node holds is replaced where there is a node. -/

theorem mem_of_lookup {α β : Type} [BEq α] [LawfulBEq α] {l : List (α × β)} {a : α} {b : β}
    (h : l.lookup a = some b) : (a, b) ∈ l := by
  induction l with
  | nil => simp at h
  | cons head rest ih => grind

theorem not_mem_of_lookup_eq_none {α β : Type} [BEq α] [LawfulBEq α] {l : List (α × β)} {a : α}
    (h : l.lookup a = none) : a ∉ l.map Prod.fst := by
  induction l with
  | nil => simp
  | cons head rest ih => grind

/-- A directory place is the root or listed as a directory. -/
theorem eq_nil_or_mem_of_isDirAt {tree : FileTree} {place : Place} (h : tree.isDirAt place) :
    place = [] ∨ ∃ node : Node, (place, node) ∈ tree.entries ∧ node.isDir := by
  cases place with
  | nil => exact .inl rfl
  | cons name above =>
    unfold isDirAt at h
    split at h
    · next node found => exact .inr ⟨node, mem_of_lookup found, h⟩
    · simp at h

/-- The tree with a node added below a directory, if nothing stands there. -/
def add (tree : FileTree) (name : Name) (above : Place) (node : Node) : FileTree :=
  if h : tree.isDirAt above ∧ tree.entries.lookup (name :: above) = none then
    { root := tree.root
      entries := (name :: above, node) :: tree.entries
      fresh := tree.fresh
      distinct := by
        simp only [List.map_cons, List.nodup_cons]
        exact ⟨not_mem_of_lookup_eq_none h.2, tree.distinct⟩
      hosted := by
        -- What was in a directory still is, and the new node is below the directory `above`.
        have widen : ∀ place, Hosted tree.entries place →
            Hosted ((name :: above, node) :: tree.entries) place
          | [], hosted => hosted
          | _ :: _, .inl top => .inl top
          | _ :: _, .inr ⟨dir, found, is⟩ => .inr ⟨dir, List.mem_cons_of_mem _ found, is⟩
        intro e he
        rcases List.mem_cons.1 he with rfl | he
        · rcases eq_nil_or_mem_of_isDirAt h.1 with top | ⟨dir, found, is⟩
          · exact .inl top
          · exact .inr ⟨dir, List.mem_cons_of_mem _ found, is⟩
        · exact widen _ (tree.hosted e he) }
  else tree

/-- The tree with an empty directory added. -/
def addDir (tree : FileTree) (name : Name) (above : Place) (rights : Rights) : FileTree :=
  { tree.add name above (.dir tree.fresh rights) with fresh := tree.fresh + 1 }

/-- The tree with the node at one place changed; a directory stays one, and nothing else becomes
one. -/
def change (tree : FileTree) (place : Place) (f : Node → Node)
    (keeps : ∀ node, (f node).isDir = node.isDir) : FileTree :=
  let step : Place × Node → Place × Node := fun e => if e.1 = place then (e.1, f e.2) else e
  { root := tree.root
    entries := tree.entries.map step
    fresh := tree.fresh
    distinct := by
      have same : Prod.fst ∘ step = Prod.fst := by
        funext e; simp only [Function.comp, step]; split <;> rfl
      rw [List.map_map, same]
      exact tree.distinct
    hosted := by
      -- A directory is still listed as one, if not with the same rights.
      have keep : ∀ p (node : Node), (p, node) ∈ tree.entries → node.isDir →
          ∃ other : Node, (p, other) ∈ tree.entries.map step ∧ other.isDir := by
        intro p node found is
        refine ⟨(step (p, node)).2, List.mem_map.2 ⟨_, found, ?_⟩, ?_⟩
        · simp only [step]; split <;> rfl
        · simp only [step]; split
          · rw [keeps]; exact is
          · exact is
      intro e he
      obtain ⟨old, hold, rfl⟩ := List.mem_map.1 he
      have same : (step old).1 = old.1 := by simp only [step]; split <;> rfl
      rw [same]
      have := tree.hosted old hold
      match hplace : old.1, this with
      | _ :: _, .inl top => exact .inl top
      | _ :: _, .inr ⟨dir, found, is⟩ => exact .inr (keep _ _ found is) }

/-- The tree with the contents of one file replaced. -/
def setData (tree : FileTree) (place : Place) (data : Bytes) : FileTree :=
  tree.change place (Node.withData data) (Node.isDir_withData data)

/-- The tree with the rights of one node replaced. -/
def setRights (tree : FileTree) (place : Place) (rights : Rights) : FileTree :=
  tree.change place (Node.withRights rights) (Node.isDir_withRights rights)

/-- The tree without a place and all that is below it. -/
def prune (tree : FileTree) (place : Place) : FileTree :=
  let keep : Place × Node → Bool := fun e => !place.isSuffixOf e.1
  { root := tree.root
    entries := tree.entries.filter keep
    fresh := tree.fresh
    distinct := tree.distinct.sublist (List.filter_sublist.map _)
    hosted := by
      -- If the directory above had gone, the node would have gone with it.
      intro e he
      obtain ⟨he, kept⟩ := List.mem_filter.1 he
      have := tree.hosted e he
      match hplace : e.1, this with
      | _ :: _, .inl top => exact .inl top
      | name :: above, .inr ⟨dir, found, is⟩ =>
        refine .inr ⟨dir, List.mem_filter.2 ⟨found, ?_⟩, is⟩
        simp only [keep, hplace, Bool.not_eq_true', Bool.eq_false_iff, ne_eq,
          List.isSuffixOf_iff_suffix] at kept ⊢
        exact fun below => kept (below.trans (List.suffix_cons name above)) }

/-- The tree with a place and all that is below it moved to a free name in a directory. -/
def move (tree : FileTree) (place : Place) (name : Name) (above : Place) : FileTree :=
  let below := tree.entries.filter fun e => place.isSuffixOf e.1
  -- A directory is added before what is in it.
  let ordered := below.mergeSort fun a b => a.1.length ≤ b.1.length
  ordered.foldl (fun moved (old, node) =>
    match old.take (old.length - place.length) ++ name :: above with
    | [] => moved
    | last :: rest => moved.add last rest node) (tree.prune place)

end FileTree

end LineShell
