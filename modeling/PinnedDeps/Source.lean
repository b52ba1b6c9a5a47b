import PinnedDeps.Archive.Unpack

/-!
A pinned source archive, the names it goes by in the directory of dependencies, and getting it: fetch the
archive, verify it, unpack it, put the tree in its place and mark it as complete. The marker comes last,
and whatever an earlier run has left is cleared first.
-/
namespace PinnedDeps

structure Source where
  name : String
  version : String
  url : String
  sha256 : Option String
  deriving DecidableEq, Repr

namespace Source

/-- The directory that the archive unpacks to. -/
def stem (s : Source) : String := s!"{s.name}-{s.version}"

def archiveName (s : Source) : String := s.stem ++ ".tar.gz"

/-- The directory that the sources are built from. -/
def srcDir (s : Source) (deps : Path) : Path := deps / (s.stem ++ ".src")

def archivePath (s : Source) (deps : Path) : Path := deps / s.archiveName

def unpackedDir (s : Source) (deps : Path) : Path := deps / s.stem

/-- Stands in the source directory once the sources are complete. -/
def markerName : String := "EXTRACTED"

def markerText : String := "EXTRACTED CHECKER"

def marker (s : Source) (deps : Path) : Path := s.srcDir deps / markerName

/-- A directory next to the sources that a build works in. -/
def workDir (s : Source) (deps : Path) (suffix : String) : Path := deps / s!"{s.stem}.{suffix}"

def display (s : Source) : String := s!"{s.name} {s.version}"

end Source

inductive Acquired where
  | cached
  | downloaded
  deriving DecidableEq, Repr

namespace Source

open PinnedDeps.Action

def io {α : Type} (a : Action IoError α) : Action BuildError α := a.mapError .io

def isExtracted (s : Source) (deps : Path) (v : Volume) (cwd : Location) : Bool :=
  v.leadsSomewhere cwd (s.marker deps)

/-- The body behind a URL, if the last answer is a success and its body is complete. -/
def fetch (url : String) : Action BuildError Bytes := do
  let got := (← read).exchange url
  record (.requested got.requests)
  match got.answer with
  | .error cause => throw (.fetch url cause)
  | .ok r =>
    if 200 ≤ r.status ∧ r.status < 300 then
      match r.body with
      | some b => return b
      | none => throw (.fetch url .bodyCutShort)
    else throw (.fetch url (.status r.status r.reason))

def verify (url : String) (body : Bytes) : Option String → Action BuildError Unit
  | none => return ()
  | some expected => do
    let actual := (← read).digest body
    if actual = expected then return () else throw (.hashMismatch url expected actual)

/-- Nothing is written before the whole body is there and has the expected digest. -/
def download (url : String) (dest : Path) (sha256 : Option String) : Action BuildError Unit := do
  let body ← fetch url
  verify url body sha256
  io (writeFile dest body)

def extract (archive dest : Path) : Action BuildError Unit := do
  let body ← mapError (BuildError.extract archive ∘ .unreadable) <|
    ask fun v cwd => v.stat cwd archive
  match body with
  | (_, .file f) =>
    mapError (fun _ => .extract archive .notUnpacked) <|
      Unpack.unpack ((← read).archive f.bytes) dest
  | _ => mapError (fun _ => .extract archive .notUnpacked) (Unpack.unpack ⟨[], false⟩ dest)

/-- Removes what an interrupted run may have left. -/
def clearRemnants (s : Source) (deps : Path) : Action BuildError Unit := io do
  removeFileIfThere (s.archivePath deps)
  removeTreeIfThere (s.srcDir deps)
  removeTreeIfThere (s.unpackedDir deps)

def unpack (s : Source) (deps archive : Path) : Action BuildError Unit := do
  extract archive deps
  io do
    change fun v cwd => v.rename cwd (s.unpackedDir deps) (s.srcDir deps)
    removeFileIfThere archive
    writeFile (s.marker deps) (Bytes.ofText markerText)

def acquire (s : Source) (deps : Path) : Action BuildError Acquired := do
  if ← look (s.isExtracted deps) then return .cached
  io (ensureDir deps)
  s.clearRemnants deps
  download s.url (s.archivePath deps) s.sha256
  s.unpack deps (s.archivePath deps)
  return .downloaded

end Source

end PinnedDeps
