import LineShell.Text.Utf8
/-!
Paths as they are written: byte strings with `/` between the steps.

A written path means nothing without a file tree. Here are only the operations on its text:
joining two paths, listing the steps, and cutting off the last step.
-/

set_option autoImplicit false

namespace LineShell

/-- A path as it is written. -/
abbrev Path := Bytes

namespace Path

/-- The byte `/`. -/
def slash : UInt8 := 0x2f

/-- The byte `.`. -/
def dotByte : UInt8 := 0x2e

/-- The step that stays where it is. -/
def dot : Bytes := [dotByte]

/-- The step that leads to the directory above. -/
def dotDot : Bytes := [dotByte, dotByte]

/-- Whether a path starts at the root. -/
def isAbsolute (path : Path) : Bool := path.head? == some slash

/-- Whether a path ends with a slash, and so can only name a directory. -/
def endsInSlash (path : Path) : Bool := path.getLast? == some slash

/-- **Joining.** An absolute second path stands alone; any other is put behind the first one, with
a slash between them unless there is one. -/
def join (first second : Path) : Path :=
  if second.isAbsolute then second
  else if first.isEmpty || first.endsInSlash then first ++ second
  else first ++ slash :: second

/-- The names and dots between the slashes of a path. -/
def names (path : Path) : List Bytes := (path.splitOn slash).filter fun name => !name.isEmpty

/-- The step of a slash at the end of a path: it has no name and stays in place, which only a
directory allows. -/
def slashStep : Bytes := []

/-- The steps of a path. -/
def steps (path : Path) : List Bytes :=
  if path.endsInSlash then path.names ++ [slashStep] else path.names

theorem join_of_absolute (first : Path) {second : Path} (h : second.isAbsolute) :
    join first second = second := by
  simp [join, h]

/-! ## The path above -/

/-- A reversed path without the slashes and the staying steps that it ends with; of a path made of
slashes one is left. -/
def trimmedRev : Path → Path
  | [] => []
  | [b] => [b]
  | b :: c :: rest =>
    if b = slash then trimmedRev (c :: rest)
    else if b = dotByte ∧ c = slash then trimmedRev (c :: rest)
    else b :: c :: rest

theorem length_trimmedRev_le (path : Path) : (trimmedRev path).length ≤ path.length := by
  fun_induction trimmedRev path <;> simp_all <;> omega

/-- A path without its last step; `none` if there is no step to cut off. -/
def parent? (path : Path) : Option Path :=
  match trimmedRev path.reverse with
  | [] => none
  | b :: rest =>
    -- Nothing is left but the root, which has nothing above it.
    if b = slash then none
    else some (trimmedRev (rest.dropWhile (· != slash))).reverse

theorem length_of_parent? {path parent : Path} (h : path.parent? = some parent) :
    parent.length < path.length := by
  unfold parent? at h
  have hle := length_trimmedRev_le path.reverse
  split at h
  · simp at h
  · next b rest heq =>
    split at h
    · simp at h
    · have := length_trimmedRev_le (rest.dropWhile (· != slash))
      have := (List.dropWhile_sublist (p := (· != slash)) (l := rest)).length_le
      simp only [Option.some.injEq] at h
      subst h
      simp only [heq, List.length_cons, List.length_reverse] at hle ⊢
      omega

end Path

end LineShell
