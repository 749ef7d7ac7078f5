import LineShell.Cause
import LineShell.Files.Tree
/-!
Walking a path through a file tree.

A walk takes one step of the path at a time, from a directory that it may go through. A step onto a
symbolic link puts the link's target in front of the steps that remain; a walk passes forty links
at most. The end of a walk is a place where something stands, never a link, or a free name in a
directory, which is where a new file would go.
-/

set_option autoImplicit false

namespace LineShell

/-- Where a walk ends. -/
inductive Spot where
  /-- Something stands here, and it is no link. -/
  | found (place : Place)
  /-- Nothing stands here, in a directory that exists. -/
  | vacant (name : Name) (above : Place)
deriving DecidableEq, Repr

/-- The place at a spot, if something stands there. -/
def Spot.place : Spot → Except Cause Place
  | .found place => .ok place
  | .vacant .. => .error .missing

namespace FileTree

/-- The longest name that a directory takes. -/
def maxNameLength : Nat := 255

/-- The longest path that a walk takes. -/
def maxPathLength : Nat := 4095

/-- How many links a walk passes. -/
def maxLinks : Nat := 40

/-- The steps of a walk up to the first link; `follow` says how it goes on from the target of that
link, the directory that the link stands in and the steps behind it. A walk that is to make a file
refuses a last name with a slash behind it, whatever stands there. -/
def walkSteps (tree : FileTree) (making : Bool)
    (follow : Path → Place → List Bytes → Except Cause Spot) (here : Place) :
    List Bytes → Except Cause Spot
  | [] => .ok (.found here)
  | step :: rest =>
    if !tree.isDirAt here then .error .notDirectory
    else if step = Path.slashStep then tree.walkSteps making follow here rest
    else if !(tree.dirRights here).pass then .error .denied
    else if step = Path.dot then tree.walkSteps making follow here rest
    else if step = Path.dotDot then tree.walkSteps making follow here.tail rest
    else if making && rest = [Path.slashStep] then .error .isDirectory
    else if maxNameLength < step.length then .error .nameTooLong
    else match tree.node? (step :: here) with
      -- A name that is free can only be the last one.
      | none => if rest.isEmpty then .ok (.vacant step here) else .error .missing
      | some (.link target) => follow target here rest
      | some _ => tree.walkSteps making follow (step :: here) rest

/-- **A walk** from a place, with some links left to pass. -/
def walk (tree : FileTree) (making : Bool) : Nat → Place → List Bytes → Except Cause Spot
  | 0 => tree.walkSteps making fun _ _ _ => .error .tooManyLinks
  | links + 1 => tree.walkSteps making fun target here rest =>
    if target.isEmpty then .error .missing
    -- The link's own steps come first, from the directory that it stands in.
    else tree.walk making links (if target.isAbsolute then [] else here) (target.steps ++ rest)

/-- Where the walk along a path starts: at the root, or at the base of relative paths, which is
`none` if that directory is gone. -/
def startOf (base : Option Place) (path : Path) : Except Cause Place :=
  if path.contains 0 then .error .nulInPath
  else if path.isEmpty then .error .missing
  else if path.isAbsolute then .ok []
  else match base with
    | some place => .ok place
    | none => .error .missing

/-- The same for a path that is not too long to be taken in one piece. -/
def startWithin (base : Option Place) (path : Path) : Except Cause Place :=
  if !path.contains 0 && maxPathLength < path.length then .error .nameTooLong
  else startOf base path

/-- The spot that a path names. -/
def locate (tree : FileTree) (base : Option Place) (path : Path) : Except Cause Spot := do
  tree.walk false maxLinks (← startWithin base path) path.steps

/-- The place that a path names, if something stands there. -/
def find (tree : FileTree) (base : Option Place) (path : Path) : Except Cause Place := do
  (← tree.locate base path).place

/-! ## Canonical paths

The canonical path of what a path names leads there through no link. It is found name by name: the
canonical path so far, with the next name behind it, is looked at as a path of its own. So the path
that is asked for may be as long as it likes, but no path on the way may be longer than others. -/

/-- Whether the steps behind a name allow nothing but a directory there: they stay there or lead
above it at once, or end in a slash. -/
def asksForDir (rest : List Bytes) : Bool :=
  !rest.isEmpty &&
    match rest.dropWhile fun step => step = Path.slashStep ∨ step = Path.dot with
    | [] => true
    | step :: _ => step = Path.dotDot

/-- Whether a directory can be told at a place by its path with a slash behind it. -/
def checkDir (tree : FileTree) (place : Place) : Except Cause Unit :=
  if maxPathLength ≤ place.path.length then .error .nameTooLong
  else if tree.isDirAt place then .ok ()
  else .error .notDirectory

/-- **The place that steps lead to,** found by canonical paths, with some links left to pass. -/
def resolve (tree : FileTree) (links : Nat) (here : Place) : List Bytes → Except Cause Place
  | [] => .ok here
  | step :: rest =>
    if step = Path.slashStep ∨ step = Path.dot then tree.resolve links here rest
    else if step = Path.dotDot then tree.resolve links here.tail rest
    else if maxPathLength < (Place.path (step :: here)).length then .error .nameTooLong
    else if !tree.isDirAt here then .error .notDirectory
    else if !(tree.dirRights here).pass then .error .denied
    else if maxNameLength < step.length then .error .nameTooLong
    else match tree.node? (step :: here) with
      | none => .error .missing
      | some (.link target) =>
        match links with
        | 0 => .error .tooManyLinks
        | links + 1 =>
          tree.resolve links (if target.isAbsolute then [] else here) (target.steps ++ rest)
      | some _ => do
        if asksForDir rest then tree.checkDir (step :: here)
        tree.resolve links (step :: here) rest
termination_by todo => (links, todo.length)

/-- The last name of a path, and the directory that it is looked up in. A link is not followed
there. A path without such a name, as `/` or one that ends in dots, names a directory that is there
already. -/
def lastStep (tree : FileTree) (base : Option Place) (path : Path) :
    Except Cause (Option (Name × Place)) := do
  let start ← startWithin base path
  match path.names.getLast? with
  | none => .ok none
  | some last =>
    -- The staying step makes sure that the walk ends at a directory.
    let above ← (← tree.walk false maxLinks start (path.names.dropLast ++ [Path.dot])).place
    .ok (if last = Path.dot ∨ last = Path.dotDot then none else some (last, above))

/-- Where something new is put at a path: a name in a directory. -/
def slot (tree : FileTree) (base : Option Place) (path : Path) :
    Except Cause (Name × Place) := do
  match ← tree.lastStep base path with
  | none => .error .alreadyThere
  | some (last, above) =>
    if maxNameLength < last.length then .error .nameTooLong else .ok (last, above)

end FileTree

end LineShell
