import LineShell.Programs.Arguments
/-!
The programs that print files, make them, remove them and change what may be done with them.

Each takes the name that it was called by and its arguments, acts on the process that runs it, and
gives a status. A complaint names the path as it was written.
-/

set_option autoImplicit false

namespace LineShell

namespace Utility

open Process

/-- Complains about one operand. -/
def refuse (name text : String) : ProcessM Nat := do
  complain (name ++ ": " ++ text)
  return 1

/-- Complains about an operand for a cause. -/
def refuseFor (name text operand : String) (cause : Cause) : ProcessM Nat :=
  refuse name (text ++ quoted operand ++ ": " ++ causeText cause)

/-- Runs a program on operands, of which there has to be one. -/
def withOperands (name missing : String) (operands : List String)
    (action : String → ProcessM Nat) : ProcessM Nat :=
  if operands.isEmpty then misuse name missing 1 else forAll operands action

/-! ## Printing -/

/-- Prints files; a dash stands for the input. -/
def cat (name : String) (arguments : List String) : ProcessM Nat :=
  withArguments (letters "u") name arguments 1 fun given => do
    if ((← get).channel? 1 Descriptor.writes).isNone then
      refuse name ("standard output: " ++ causeText .badDescriptor)
    else forAll (if given.operands.isEmpty then ["-"] else given.operands) fun operand => do
      let p ← get
      match if operand = "-" then .ok [] else p.files.read p.base (octetBytes operand) with
      | .ok bytes =>
        let bytes ← if operand = "-" then readAll else pure (.ok bytes)
        match bytes with
        | .ok bytes =>
          printBytes bytes
          return 0
        | .error cause =>
          let status ← refuse name (operand ++ ": " ++ causeText cause)
          if cause == .badDescriptor then
            refuse name ("closing standard input: " ++ causeText cause)
          else return status
      | .error cause => refuse name (quotedIfNeeded operand ++ ": " ++ causeText cause)

/-- Prints the names in directories, one in a line. -/
def ls (name : String) (arguments : List String) : ProcessM Nat :=
  withArguments (letters "1aAd") name arguments 2 fun given => do
    let operands := if given.operands.isEmpty then ["."] else given.operands
    let sorted := operands.mergeSort (· ≤ ·)
    let p ← get
    let isListed (operand : String) : Bool :=
      !given.has 'd' && p.files.isDir p.base (octetBytes operand)
    let isThere (operand : String) : Bool :=
      (p.look operand).toOption.isSome ||
        (p.files.entry p.base (octetBytes operand)).toOption.isSome
    let missing := sorted.filter fun operand => !isThere operand
    let plain := sorted.filter fun operand => isThere operand && !isListed operand
    let dirs := sorted.filter isListed
    for operand in missing do
      match p.look operand with
      | .error cause =>
        complain (name ++ ": cannot access " ++ quoted operand ++ ": " ++ causeText cause)
      | .ok _ => pure ()
    print (String.join (plain.map (· ++ "\n")))
    let status ← forAll dirs fun operand => do
      if 1 < operands.length then
        let isFirst := plain.isEmpty && dirs.head? == some operand
        print ((if isFirst then "" else "\n") ++ operand ++ ":\n")
      match p.files.list p.base (octetBytes operand) with
      | .ok names =>
        let dots := if given.has 'a' then [Path.dot, Path.dotDot] else []
        let shown := names.filter fun name =>
          given.has 'a' || given.has 'A' || name.head? != some Path.dotByte
        print (String.join (((dots ++ shown).map octetText).mergeSort (· ≤ ·) |>.map (· ++ "\n")))
        return 0
      | .error cause => do
        complain (name ++ ": cannot open directory " ++ quoted operand ++ ": " ++ causeText cause)
        return 2
    return max status (if missing.isEmpty then 0 else 2)

/-! ## Making -/

/-- Makes files that do not exist, and touches those that do. -/
def touch (name : String) (arguments : List String) : ProcessM Nat :=
  let known := letters "acfhm" ++
    [⟨'c', "no-create", false⟩, ⟨'h', "no-dereference", false⟩, ⟨'d', "date", true⟩,
     ⟨'r', "reference", true⟩, ⟨'t', "", true⟩]
  withArguments known name arguments 1 fun given =>
    withOperands name "missing file operand" given.operands fun operand => do
      if operand = "-" then return 0
      let p ← get
      let path := octetBytes operand
      -- Links themselves have times too.
      let found := if given.has 'h' then (p.files.entry p.base path).map fun _ => ()
        else (p.look operand).map fun _ => ()
      let setTimes : ProcessM Nat :=
        match found with
        | .ok _ => return 0
        | .error cause =>
          if given.has 'c' && cause == .missing then return 0
          else refuseFor name "setting times of " operand cause
      if given.has 'c' || given.has 'h' then setTimes
      else match p.files.openFile p.base path (p.allowed .plain) with
        | .ok (_, files) =>
          set { p with files }
          return 0
        | .error .isDirectory => setTimes
        | .error cause =>
          if found.isOk then return 0 else refuseFor name "cannot touch " operand cause

/-- What a text of letters and signs makes of rights: whom it is for, and what is added, taken away
or set. -/
def clauseChange? (mask : Rights) (clause : List Char) : Option (Rights → Rights) := do
  let who := clause.takeWhile fun c => "ugoa".toList.contains c
  let actions := clause.drop who.length
  if actions.isEmpty then none
  let ours := who.isEmpty || who.contains 'u' || who.contains 'a'
  let rec act : Nat → List Char → Option (Rights → Rights)
    | 0, _ => none
    | _, [] => some id
    | count + 1, sign :: rest => do
      if !("+-=".toList.contains sign) then none
      let kinds := rest.takeWhile fun c => "rwxXst".toList.contains c
      let more ← act count (rest.drop kinds.length)
      let open? (kind : Char) (masked : Bool) : Bool :=
        kinds.contains kind && !(who.isEmpty && masked)
      let named : Rights :=
        ⟨open? 'r' mask.read, open? 'w' mask.write, open? 'x' mask.pass || open? 'X' mask.pass⟩
      let change (old : Rights) : Rights :=
        if !ours then old
        else match sign with
          | '+' => old.join named
          | '-' => old.without named
          | _ => named
      return more ∘ change
  act (actions.length + 1) actions

/-- What a mode makes of the rights of its owner: digits in base eight say all of them. -/
def modeChange? (mask : Rights) (mode : String) : Option (Rights → Rights) :=
  let text := mode.toList
  if text.isEmpty then none
  else if text.all fun c => '0' ≤ c ∧ c ≤ '7' then
    let n := text.foldl (fun n c => 8 * n + (c.toNat - '0'.toNat)) 0
    if n < 4096 then some fun _ => .ofDigit (n / 64) else none
  else do
    let changes ← (text.splitOn ',').mapM (clauseChange? mask)
    return fun rights => changes.foldl (fun rights change => change rights) rights

/-- The paths of the directories above a path, and the path itself, as they are written. -/
def ancestry (path : Path) : List Path :=
  let rec fronts : Path → Path → List Path
    | front, [] => [front.reverse]
    | front, b :: rest =>
      let more := fronts (b :: front) rest
      -- A directory is named up to the first slash behind it, and the last one whole.
      if b = Path.slash && front.any (· != Path.slash) && front.head? != some Path.slash &&
          rest.any (· != Path.slash) then front.reverse :: more
      else more
  fronts [] path

/-- Makes directories. -/
def mkdir (name : String) (arguments : List String) : ProcessM Nat :=
  let known : List Known :=
    [⟨'p', "parents", false⟩, ⟨'v', "verbose", false⟩, ⟨'m', "mode", true⟩]
  withArguments known name arguments 1 fun given => do
    let p ← get
    let mask : Rights := .ofDigit (p.mask / 64)
    let change : Option (Rights → Rights) := match given.value? 'm' with
      | none => some fun _ => p.allowed .all
      | some mode => modeChange? mask mode
    if given.operands.isEmpty then misuse name "missing operand" 1
    else match change with
      | none => refuse name ("invalid mode " ++ cited ((given.value? 'm').getD ""))
      | some change =>
        let make (path : Path) (rights : Rights) : ProcessM (Option Cause) := do
          let fault ← Process.change fun files base => files.makeDir base path rights
          if fault.isNone && given.has 'v' then
            print (name ++ ": created directory " ++ quoted (octetText path) ++ "\n")
          return fault
        forAll given.operands fun operand => do
          let path := octetBytes operand
          if !given.has 'p' then
            match ← make path (change .all) with
            | none => return 0
            | some cause => refuseFor name "cannot create directory " operand cause
          else
            let rec climb : List Path → ProcessM Nat
              | [] => return 0
              | front :: rest => do
                let own := rest.isEmpty
                match ← make front (if own then change .all else .all) with
                | none => climb rest
                | some cause =>
                  let now ← get
                  if cause == .alreadyThere && now.files.isDir now.base front then climb rest
                  else
                    let cause := if cause == .alreadyThere && !own then .notDirectory else cause
                    refuseFor name "cannot create directory " (octetText front) cause
            climb (ancestry path)

/-- The name of what a path names, in a directory. -/
def inDir (dir operand : String) : Path :=
  Path.join (octetBytes dir) ((Path.names (octetBytes operand)).getLast?.getD [])

/-- Runs a program that puts something from each operand into the directory that the last one
names. -/
def intoLast (name : String) (operands : List String)
    (action : String → Path → ProcessM Nat) : ProcessM Nat := do
  let dir := operands.getLast?.getD ""
  match (← get).look dir with
  | .ok (_, .dir ..) => forAll operands.dropLast fun operand => action operand (inDir dir operand)
  | .ok _ => refuseFor name "target " dir .notDirectory
  | .error cause => refuseFor name "target " dir cause

/-- Makes links: symbolic ones, or second names of files. What is written under one of two names is
not seen under the other one. -/
def ln (name : String) (arguments : List String) : ProcessM Nat :=
  let known : List Known := [⟨'s', "symbolic", false⟩, ⟨'f', "force", false⟩,
    ⟨'n', "no-dereference", false⟩, ⟨'T', "no-target-directory", false⟩, ⟨'v', "verbose", false⟩]
  withArguments known name arguments 1 fun given => do
    let symbolic := given.has 's'
    let link (target : String) (path : Path) : ProcessM Nat := do
      let shown := quoted (octetText path)
      let arrow := if symbolic then " -> " else " => "
      let p ← get
      let source := if symbolic then p.look target else p.files.entry p.base (octetBytes target)
      let there := (p.files.entry p.base path).toOption.map Prod.fst
      match symbolic, source with
      | false, .error cause => refuseFor name "failed to access " target cause
      | false, .ok (_, .dir ..) =>
        refuse name (quoted target ++ ": hard link not allowed for directory")
      | _, source =>
        let place? := source.toOption.map Prod.fst
        if given.has 'f' && place?.isSome && place? == there then
          refuse name (quoted target ++ " and " ++ shown ++ " are the same file")
        else
          if given.has 'f' then
            let _ ← change fun files base => files.removeFile base path
          let fault ← change fun files base =>
            match symbolic, source with
            | false, .ok (_, node) =>
              files.make base path fun last above => files.add last above node
            | _, _ => files.makeLink base path (octetBytes target)
          match fault with
          | none =>
            if given.has 'v' then print (shown ++ arrow ++ quoted target ++ "\n")
            return 0
          | some cause =>
            let kind := if symbolic then "symbolic" else "hard"
            let whole := target.isEmpty || cause == .nameTooLong || !symbolic &&
              cause != .alreadyThere
            refuse name ("failed to create " ++ kind ++ " link " ++ shown ++
              (if whole then arrow ++ quoted target else "") ++ ": " ++ causeText cause)
    let p ← get
    match given.operands with
    | [] => misuse name "missing file operand" 1
    | [target] => link target (inDir "." target)
    | [target, path] =>
      let isLink := match p.files.entry p.base (octetBytes path) with
        | .ok (_, .link _) => true
        | _ => false
      if given.has 'T' || given.has 'n' && isLink || !p.files.isDir p.base (octetBytes path) then
        link target (octetBytes path)
      else link target (inDir path target)
    | targets => intoLast name targets link

/-- Changes what may be done with files. -/
def chmod (name : String) (arguments : List String) : ProcessM Nat :=
  -- A mode that takes rights away looks like an option.
  match arguments with
  | [] => misuse name "missing operand" 1
  | [mode] => misuse name ("missing operand after " ++ cited mode) 1
  | mode :: operands => do
    let p ← get
    match modeChange? (.ofDigit (p.mask / 64)) mode with
    | none => misuse name ("invalid mode: " ++ cited mode) 1
    | some rights =>
      forAll operands fun operand => do
        match ← change fun files base => files.changeRights base (octetBytes operand) rights with
        | none => return 0
        | some cause => refuseFor name "cannot access " operand cause

/-! ## Removing and moving -/

/-- Whether a path ends in a dot step. -/
def endsInDots (path : Path) : Bool :=
  let last := path.names.getLast?
  last == some Path.dot || last == some Path.dotDot

/-- Removes what a path names with all that is in it, a directory after its contents. -/
def removeTree (name : String) (force verbose : Bool) : Nat → Path → ProcessM Nat
  | 0, _ => return 1
  | depth + 1, path => do
    let p ← get
    let operand := octetText path
    -- A slash at the end leads through a link.
    let node? := if path.endsInSlash then p.files.look p.base path else p.files.entry p.base path
    let attempt (text : String)
        (step : FileTree → Option Place → Except Cause FileTree) : ProcessM Nat := do
      match ← change step with
      | none =>
        if verbose then print (text ++ quoted operand ++ "\n")
        return 0
      | some cause => refuseFor name "cannot remove " operand cause
    match node? with
    | .error cause =>
      if force && (cause == .missing || cause == .notDirectory) then return 0
      else refuseFor name "cannot remove " operand cause
    | .ok (place, .dir _ rights) =>
      let names := p.files.namesAt place
      if !rights.read && !names.isEmpty then refuseFor name "cannot remove " operand .denied
      else
        let inside ← names.foldlM (fun status child => do
          return max status (← removeTree name force verbose depth (path.join child))) 0
        if inside = 0 then
          attempt "removed directory " fun files base => files.removeDir base path
        else return inside
    | .ok _ => attempt "removed " fun files base => files.removeFile base path

/-- Removes files, and directories if asked to. -/
def rm (name : String) (arguments : List String) : ProcessM Nat :=
  let known : List Known :=
    [⟨'r', "recursive", false⟩, ⟨'R', "", false⟩, ⟨'f', "force", false⟩, ⟨'d', "dir", false⟩,
     ⟨'v', "verbose", false⟩]
  withArguments known name arguments 1 fun given => do
    let deep := given.has 'r' || given.has 'R'
    let force := given.has 'f'
    if given.operands.isEmpty && force then return 0
    withOperands name "missing operand" given.operands fun operand => do
      let path : Path := octetBytes operand
      let p ← get
      if deep && endsInDots path then
        refuse name ("refusing to remove '.' or '..' directory: skipping " ++ quoted operand)
      else if deep && path.isAbsolute && path.names.isEmpty then do
        complain (name ++ ": it is dangerous to operate recursively on " ++ quoted operand)
        refuse name "use --no-preserve-root to override this failsafe"
      else if deep then
        removeTree name force (given.has 'v') (p.files.entries.length + 2) path
      else
        let isDir := if path.endsInSlash then p.files.isDir p.base path
          else match p.files.entry p.base path with
            | .ok (_, node) => node.isDir
            | .error _ => p.files.isDir p.base path
        if isDir && !given.has 'd' then refuseFor name "cannot remove " operand .isDirectory
        else if isDir then
          match ← change fun files base => files.removeDir base path with
          | none =>
            if given.has 'v' then print ("removed directory " ++ quoted operand ++ "\n")
            return 0
          | some cause => refuseFor name "cannot remove " operand cause
        else removeTree name force (given.has 'v') 1 path

/-- A path without its last step, if there is another one in front of that. -/
def above? (path : Path) : Option Path :=
  let trimmed := (path.reverse.dropWhile (· == Path.slash)).dropWhile (· != Path.slash)
  let above := (trimmed.dropWhile (· == Path.slash)).reverse
  if above.isEmpty then none else some above

/-- Removes empty directories. -/
def rmdir (name : String) (arguments : List String) : ProcessM Nat :=
  let known : List Known :=
    [⟨'p', "parents", false⟩, ⟨'v', "verbose", false⟩,
     ⟨'i', "ignore-fail-on-non-empty", false⟩]
  withArguments known name arguments 1 fun given =>
    withOperands name "missing operand" given.operands fun operand => do
      let remove (path : Path) (text : String) : ProcessM Nat := do
        let shown := octetText path
        if given.has 'v' then print (name ++ ": removing directory, " ++ quoted shown ++ "\n")
        let p ← get
        match ← change fun files base => files.removeDir base path with
        | none => return 0
        | some cause =>
          let isLink := match p.files.entry p.base path with
            | .ok (_, .link _) => true
            | _ => false
          if cause == .notEmpty && given.has 'i' then return 0
          else if cause == .notDirectory && path.endsInSlash && isLink then
            refuse name (text ++ quoted shown ++ ": Symbolic link not followed")
          else refuseFor name text shown cause
      let rec climb : Nat → Path → ProcessM Nat
        | 0, _ => return 0
        | count + 1, path => do
          match above? path with
          | none => return 0
          | some above =>
            let status ← remove above "failed to remove directory "
            if status = 0 then climb count above else return status
      let status ← remove (octetBytes operand) "failed to remove "
      if status = 0 && given.has 'p' then climb operand.length (octetBytes operand)
      else return status

/-- Gives what one path names the name of another path. -/
def moveTo (name : String) (verbose : Bool) (source : String) (target : Path) : ProcessM Nat := do
  let p ← get
  let path : Path := octetBytes source
  let shown := octetText target
  let throughLinks := path.endsInSlash || endsInDots path
  match if throughLinks then p.files.look p.base path else p.files.entry p.base path with
  | .error cause => refuseFor name "cannot stat " source cause
  | .ok (place, node) =>
    match (p.files.entry p.base target).toOption.map fun (there, other) =>
        (there == place, node.isDir, other.isDir) with
    | some (true, false, _) =>
      refuse name (quoted source ++ " and " ++ quoted shown ++ " are the same file")
    | some (_, true, false) =>
      refuse name ("cannot overwrite non-directory " ++ quoted shown ++ " with directory " ++
        quoted source)
    | some (_, false, true) =>
      refuse name ("cannot overwrite directory " ++ quoted shown ++ " with non-directory")
    | _ =>
      match ← change fun files base => files.rename base path target with
      | none =>
        if verbose then print ("renamed " ++ quoted source ++ " -> " ++ quoted shown ++ "\n")
        return 0
      | some .invalid =>
        refuse name ("cannot move " ++ quoted source ++ " to a subdirectory of itself, " ++
          quoted shown)
      | some .notEmpty => refuseFor name "cannot overwrite " shown .notEmpty
      | some cause =>
        refuseFor name ("cannot move " ++ quoted source ++ " to ") shown cause

/-- Gives files and directories other names. -/
def mv (name : String) (arguments : List String) : ProcessM Nat :=
  let known : List Known := [⟨'f', "force", false⟩, ⟨'T', "no-target-directory", false⟩,
    ⟨'v', "verbose", false⟩]
  withArguments known name arguments 1 fun given => do
    let p ← get
    let move := moveTo name (given.has 'v')
    match given.operands with
    | [] => misuse name "missing file operand" 1
    | [source] => misuse name ("missing destination file operand after " ++ quoted source) 1
    | [source, target] =>
      if p.files.isDir p.base (octetBytes target) && !given.has 'T' then
        move source (inDir target source)
      else move source (octetBytes target)
    | operands => intoLast name operands move

end Utility

end LineShell
