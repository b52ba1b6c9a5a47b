import PinnedDeps.Volume.Walk

/-!
The single operations on a volume: what can be asked about a path, and the changes that can be made
at one. A change either happens completely or is refused with its cause.

The causes are those that lie in the tree itself. Directories carry no permission bits, those of a file are
kept and say whether it is a program, and there is room for every entry: this is the tree as a privileged
process finds it. What else a system may refuse, and where a writing ends early, is left to the `Machine`
that an action runs on.
-/
namespace PinnedDeps
namespace Volume

def found (v : Volume) (landing : Landing) : Except IoError (Location × Entry) :=
  match v.lookup landing.location with
  | some e => .ok (landing.location, e)
  | none => .error SystemError.noEntry

/-- The entry that a path leads to, links followed. -/
def stat (v : Volume) (cwd : Location) (p : Path) : Except IoError (Location × Entry) := do
  found v (← reach v cwd p true)

/-- The entry that a path names, a link at its end not followed. -/
def entryAt (v : Volume) (cwd : Location) (p : Path) : Except IoError (Location × Entry) := do
  found v (← reach v cwd p false)

def leadsSomewhere (v : Volume) (cwd : Location) (p : Path) : Bool := (v.stat cwd p).isOk

def leadsToDir (v : Volume) (cwd : Location) (p : Path) : Bool :=
  match v.stat cwd p with
  | .ok (_, .dir) => true
  | _ => false

def leadsToProgram (v : Volume) (cwd : Location) (p : Path) : Bool :=
  match v.stat cwd p with
  | .ok (_, .file f) => f.isExecutable
  | _ => false

def readFile (v : Volume) (cwd : Location) (p : Path) : Except IoError Bytes := do
  match ← v.stat cwd p with
  | (_, .file f) => .ok f.bytes
  | _ => .error SystemError.isDirectory

def makeDir (v : Volume) (cwd : Location) (p : Path) : Except IoError Volume := do
  match ← reachName v cwd p with
  | .place _ => .error SystemError.alreadyExists
  | .name d n =>
    if (v.lookup (n :: d)).isSome then .error SystemError.alreadyExists
    else .ok (v.put (n :: d) .dir)

def makeLink (v : Volume) (cwd : Location) (target : Bytes) (p : Path) : Except IoError Volume := do
  checkPath ⟨target⟩
  match ← reachName v cwd p with
  | .place _ => .error SystemError.alreadyExists
  | .name d n =>
    if (v.lookup (n :: d)).isSome then .error SystemError.alreadyExists
    else if p.endsInSlash then .error SystemError.noEntry
    else .ok (v.put (n :: d) (.link target))

/-- Removes a file or a link. -/
def removeFile (v : Volume) (cwd : Location) (p : Path) : Except IoError Volume := do
  match ← reachName v cwd p with
  | .place _ => .error SystemError.isDirectory
  | .name d n =>
    match v.lookup (n :: d) with
    | none => .error SystemError.noEntry
    | some .dir => .error SystemError.isDirectory
    | some _ => if p.endsInSlash then .error SystemError.notDirectory else .ok (v.erase (n :: d))

/-- Removes an empty directory. -/
def removeDir (v : Volume) (cwd : Location) (p : Path) : Except IoError Volume := do
  match ← reachName v cwd p with
  | .place [] => .error SystemError.busy
  | .place _ =>
    .error <|
      if p.segments.getLast? = some [Bytes.dot] then SystemError.invalid else SystemError.notEmpty
  | .name d n =>
    match v.lookup (n :: d) with
    | none => .error SystemError.noEntry
    | some .dir =>
      if v.names (n :: d) = [] then .ok (v.erase (n :: d)) else .error SystemError.notEmpty
    | some _ => .error SystemError.notDirectory

def sameFile : Entry → Entry → Bool
  | .file f, e => samePeers f e
  | _, _ => false

/-- Whether an entry of the first kind may take the place of one of the second. -/
def replaceable (v : Volume) (dst : Location) : Entry → Entry → Except IoError Unit
  | .dir, .dir => if v.names dst = [] then .ok () else .error SystemError.notEmpty
  | .dir, _ => .error SystemError.notDirectory
  | _, .dir => .error SystemError.isDirectory
  | _, _ => .ok ()

def rename (v : Volume) (cwd : Location) (p q : Path) : Except IoError Volume := do
  let a ← reachName v cwd p
  let b ← reachName v cwd q
  match a, b with
  | .name d n, .name d' n' =>
    let src := n :: d
    let dst := n' :: d'
    match v.lookup src with
    | none => .error SystemError.noEntry
    | some e =>
      if e ≠ .dir ∧ (p.endsInSlash ∨ q.endsInSlash) then .error SystemError.notDirectory
      else if src = dst then .ok v
      else if Below dst src then .error SystemError.invalid
      else if Below src dst then .error SystemError.notEmpty
      else match v.lookup dst with
        | none => .ok (v.relocate src dst)
        | some old =>
          if sameFile e old then .ok v
          else do
            replaceable v dst e old
            .ok (v.relocate src dst)
  | _, _ => .error SystemError.busy

/-- Gives an entry a further name. A directory can have only one. -/
def hardLink (v : Volume) (cwd : Location) (p q : Path) : Except IoError Volume := do
  let (src, e) ← v.entryAt cwd p
  match ← reachName v cwd q with
  | .place _ => .error SystemError.alreadyExists
  | .name d n =>
    if (v.lookup (n :: d)).isSome then .error SystemError.alreadyExists
    else if q.endsInSlash then .error SystemError.noEntry
    else if e = .dir then .error SystemError.notPermitted
    else .ok (v.addName src (n :: d))

/-- Permission bits of a file made without a wish of its own. -/
def plainMode : Nat := 0o644

/-- Where a file that is to be written stands or will stand. No file has a name that ends in a
slash. -/
def reachFile (v : Volume) (cwd : Location) (p : Path) : Except IoError Landing := do
  if p.endsInSlash then
    discard (reachName v cwd p)
    .error SystemError.isDirectory
  else reach v cwd p true

/-- Opens a path for writing: a missing file is made, one that is there is emptied unless its bytes
are to be kept. -/
def openFile (v : Volume) (cwd : Location) (p : Path) (mode : Nat) (keep : Bool) :
    Except IoError (Location × Volume) := do
  match ← reachFile v cwd p with
  | .place _ => .error SystemError.isDirectory
  | .name d n =>
    match v.lookup (n :: d) with
    | none => .ok (n :: d, v.put (n :: d) (.file ⟨[], mode, none⟩))
    | some (.file _) =>
      .ok (n :: d, if keep then v else v.adjust (n :: d) ({ · with bytes := [] }))
    | some .dir => .error SystemError.isDirectory
    | some (.link _) => .error SystemError.tooManyLinks

/-- Makes a file where nothing is, not even a link. -/
def openNew (v : Volume) (cwd : Location) (p : Path) (mode : Nat) :
    Except IoError (Location × Volume) := do
  match ← reachName v cwd p with
  | .place _ => .error SystemError.isDirectory
  | .name d n =>
    if p.endsInSlash then .error SystemError.isDirectory
    else if (v.lookup (n :: d)).isSome then .error SystemError.alreadyExists
    else .ok (n :: d, v.put (n :: d) (.file ⟨[], mode, none⟩))

def append (v : Volume) (l : Location) (b : Bytes) : Volume :=
  v.adjust l fun f => { f with bytes := f.bytes ++ b }

def setMode (v : Volume) (l : Location) (mode : Nat) : Volume := v.adjust l ({ · with mode })

end Volume

/-- A volume as one process sees it. -/
structure View where
  volume : Volume
  cwd : Location
  home : Path
  deriving DecidableEq

namespace View

def leadsSomewhere (s : View) (p : Path) : Bool := s.volume.leadsSomewhere s.cwd p

def leadsToProgram (s : View) (p : Path) : Bool := s.volume.leadsToProgram s.cwd p

end View
end PinnedDeps
