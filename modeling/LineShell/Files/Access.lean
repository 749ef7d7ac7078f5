import LineShell.Files.Walk
/-!
What programs do with files, by path: reading, listing, writing, making and removing.

`base` is the directory that relative paths start from, `none` if it is gone. Every operation
either gives its result or names the cause; a changed tree is given back only on success. Reading
and listing ask the rights of what is read, making and removing those of the directory around it.
-/

set_option autoImplicit false

namespace LineShell

namespace FileTree

variable (tree : FileTree) (base : Option Place)

/-! ## Looking -/

/-- The node at the end of a path, with its place. -/
def look (path : Path) : Except Cause (Place × Node) := do
  let place ← tree.find base path
  match tree.node? place with
  | some node => .ok (place, node)
  | none => .error .missing

/-- What stands at a path, with its place; a link at the end is not followed. -/
def entry (path : Path) : Except Cause (Place × Node) := do
  let (name, above) ← tree.slot base path
  match tree.node? (name :: above) with
  | some node => .ok (name :: above, node)
  | none => .error .missing

/-- Whether a path names a regular file. -/
def isFile (path : Path) : Bool :=
  match tree.look base path with
  | .ok (_, .file ..) => true
  | _ => false

/-- Whether a path names a directory. -/
def isDir (path : Path) : Bool :=
  match tree.look base path with
  | .ok (_, .dir ..) => true
  | _ => false

/-- The path from the root, through no link, to what a path names. -/
def canonical (path : Path) : Except Cause Path := do
  return (← tree.resolve maxLinks (← startOf base path) path.steps).path

/-- What is read from a node. That a device gives nothing is true of the one that takes whatever is
written, and a simplification of the full one, which gives NUL bytes without end. -/
def contents : Node → Except Cause Bytes
  | .file data rights => if rights.read then .ok data else .error .denied
  | .dir _ rights => .error (if rights.read then .isDirectory else .denied)
  | .link _ => .error .tooManyLinks
  | .device _ => .ok []

/-- The contents of a file. -/
def read (path : Path) : Except Cause Bytes := do
  contents (← tree.look base path).2

/-- The contents of a file that is to be text. -/
def readText (path : Path) : Except Cause String := do
  match stringOf? (← tree.read base path) with
  | some text => .ok text
  | none => .error .invalidText

/-- The names in a directory. -/
def list (path : Path) : Except Cause (List Name) := do
  match ← tree.look base path with
  | (place, .dir _ rights) => if rights.read then .ok (tree.namesAt place) else .error .denied
  | _ => .error .notDirectory

/-! ## Writing -/

/-- Whether entries of the directory at a place may be made and removed. -/
def canChange (place : Place) : Bool :=
  (tree.dirRights place).write && (tree.dirRights place).pass

/-- Opens a file for writing and makes an empty one with some rights if there is none; gives its
place. -/
def openFile (path : Path) (rights : Rights) : Except Cause (Place × FileTree) := do
  match ← tree.walk true maxLinks (← startWithin base path) path.steps with
  | .found place =>
    match tree.node? place with
    | some (.dir ..) => .error .isDirectory
    | some (.file _ rights) => if rights.write then .ok (place, tree) else .error .denied
    | _ => .ok (place, tree)
  | .vacant name above =>
    if tree.canChange above then .ok (name :: above, tree.add name above (.file [] rights))
    else .error .denied

/-- Writes bytes into the contents of a file, over those behind a position; a gap in front of that
is filled with NUL bytes. -/
def writeAt (place : Place) (position : Nat) (bytes : Bytes) : FileTree :=
  match tree.node? place with
  | some (.file data _) =>
    let front := data.take position ++ List.replicate (position - data.length) 0
    tree.setData place (front ++ bytes ++ data.drop (position + bytes.length))
  | _ => tree

/-- Puts bytes behind the contents of a file. -/
def appendAt (place : Place) (bytes : Bytes) : FileTree :=
  match tree.node? place with
  | some (.file data _) => tree.setData place (data ++ bytes)
  | _ => tree

/-- Whether what stands at a place takes no bytes. -/
def isFullAt (place : Place) : Bool := tree.node? place == some (.device .full)

/-- Says what may be done with a file or a directory. -/
def changeRights (path : Path) (change : Rights → Rights) : Except Cause FileTree := do
  match ← tree.look base path with
  | (place, .file _ rights) => .ok (tree.setRights place (change rights))
  | (place, .dir _ rights) => .ok (tree.setRights place (change rights))
  | _ => .ok tree

/-! ## Making -/

/-- Makes a node at a free name. -/
def make (path : Path) (put : Name → Place → FileTree) : Except Cause FileTree := do
  let (name, above) ← tree.slot base path
  match tree.node? (name :: above) with
  | some _ => .error .alreadyThere
  | none => if tree.canChange above then .ok (put name above) else .error .denied

/-- Makes one directory. -/
def makeDir (path : Path) (rights : Rights) : Except Cause FileTree :=
  tree.make base path fun name above => tree.addDir name above rights

/-- Makes one directory, or keeps the one that is there. -/
def ensureDir (path : Path) (rights : Rights) : Except Cause FileTree :=
  match tree.makeDir base path rights with
  | .error .alreadyThere => if tree.isDir base path then .ok tree else .error .alreadyThere
  | other => other

/-- Makes a directory and, where they are missing, those above it: the tree with what could be
made, and why the rest could not. -/
def makeDirs (path : Path) (rights : Rights) : FileTree × Option Cause :=
  match h : path.parent? with
  | none => (tree, none)
  | some parent =>
    match tree.ensureDir base path rights with
    | .ok made => (made, none)
    | .error .missing =>
      have := Path.length_of_parent? h
      match makeDirs parent rights with
      | (above, none) =>
        match above.ensureDir base path rights with
        | .ok made => (made, none)
        | .error cause => (above, some cause)
      | failed => failed
    | .error cause => (tree, some cause)
termination_by path.length

/-- Makes a symbolic link. -/
def makeLink (path target : Path) : Except Cause FileTree :=
  if target.isEmpty then .error .missing
  else if target.contains 0 then .error .nulInPath
  -- Only a directory has a slash behind its name.
  else if path.endsInSlash && (tree.entry base path).toOption.isNone then .error .missing
  else tree.make base path fun name above => tree.add name above (.link target)

/-! ## Removing -/

/-- What stands at a path, if its directory lets it be removed. -/
def removable (path : Path) : Except Cause (Place × Node) := do
  let (place, node) ← tree.entry base path
  if tree.canChange place.tail then .ok (place, node) else .error .denied

/-- Removes a file or a link. -/
def removeFile (path : Path) : Except Cause FileTree := do
  if (← tree.lastStep base path).isNone then .error .isDirectory
  let (place, node) ← tree.entry base path
  -- A slash at the end is looked at before the rights are.
  if path.endsInSlash then .error (if node.isDir then .isDirectory else .notDirectory)
  else if !tree.canChange place.tail then .error .denied
  else if node.isDir then .error .isDirectory
  else .ok (tree.prune place)

/-- Removes an empty directory. -/
def removeDir (path : Path) : Except Cause FileTree := do
  if (← tree.lastStep base path).isNone then
    -- A directory is not removed from within, and the root not at all.
    .error (match path.names.getLast? with
      | none => .busy
      | some last => if last = Path.dotDot then .notEmpty else .invalid)
  match ← tree.removable base path with
  | (place, .dir ..) =>
    if (tree.namesAt place).isEmpty then .ok (tree.prune place) else .error .notEmpty
  | _ => .error .notDirectory

/-- Removes whatever stands at a path, with all that is below it. -/
def removeAll (path : Path) : Except Cause FileTree := do
  return tree.prune (← tree.removable base path).1

/-- Gives what stands at a path another one, in place of a file that stands there. -/
def rename (path target : Path) : Except Cause FileTree := do
  if (← tree.lastStep base path).isNone then .error .busy
  let (place, node) ← tree.removable base path
  let (name, above) ← tree.slot base target
  let free : Except Cause FileTree :=
    if !tree.canChange above then .error .denied
    else if node.isDir && place.isSuffixOf above then .error .invalid
    else .ok (tree.move place name above)
  match tree.node? (name :: above) with
  | none => if target.endsInSlash && !node.isDir then .error .notDirectory else free
  | some other =>
    if name :: above = place then .ok tree
    else if node.isDir && !other.isDir then .error .notDirectory
    else if other.isDir && !node.isDir then .error .isDirectory
    else if other.isDir && !(tree.namesAt (name :: above)).isEmpty then .error .notEmpty
    else if !tree.canChange above then .error .denied
    else .ok ((tree.prune (name :: above)).move place name above)

end FileTree

end LineShell
