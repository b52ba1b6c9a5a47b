import PinnedDeps.Archive.Tar
import PinnedDeps.CommandLine.Run
import PinnedDeps.Digest
import PinnedDeps.Http.Fetch
import PinnedDeps.Shell.Process

/-!
The program. It looks up the files and variables that the run depends on, runs the command line on a
volume that holds those files, and writes what it says. No server is reached from here.
-/
namespace PinnedDeps.Main

open Bytes (ofText)

def outside : Outside where
  exchange := Http.exchange fun _ => none
  digest := fun b => Bytes.hexLower (Digest.sha256 b)
  archive := Tar.read
  spawn := Command.perform

/-- The variables that a run can depend on: its settings, and the lists that libraries extend. -/
def environNames : List String :=
  ["HOME", "FORCE_COLOR", "CLICOLOR_FORCE", Config.maintenanceVar] ++
    [CommandLine.Setting.deps, .root, .cmake, .make].filterMap CommandLine.Setting.environName? ++
    (Library.exports .zlib "" (some .windows) .linux).map Prod.fst

def host : Platform := ⟨.x8664, .linux⟩

/-- The files whose presence decides what is built. -/
def watched (env : Environ) : CommandLine.Request → List Path
  | .check _ place layout _ | .build _ place layout _ _ =>
    let os := place.target.getD host.os
    let files := Library.all.flatMap fun lib => (lib.artifacts os).paths layout
    let markers := (env.get? (ofText Config.maintenanceVar)).map fun dir =>
      Path.mk dir / Config.updateMarker
    files ++ markers.toList
  | _ => []

def isThere (p : Path) : IO Bool := do
  try
    discard (IO.FS.Handle.mk p.shown .read)
    return true
  catch _ => return false

def addFile (p : Path) (w : World) : World :=
  let make : Action IoError Unit := do
    p.parent?.forM Action.ensureDir
    Action.writeFile p []
  (make.run outside w).2

def readEnviron : IO Environ := do
  let values ← environNames.mapM fun name => IO.getEnv name
  return .ofPairs <| (environNames.zip values).filterMap fun p =>
    p.2.map fun v => (ofText p.1, ofText v)

/-- The volume and the working directory of a run, with the files in it that are there. -/
def readWorld (env : Environ) (args : List Bytes) : IO World := do
  let cwd := (Path.ofText (← IO.currentDir).toString).segments.reverse
  let dirs := (List.range cwd.length).map fun n => (cwd.drop n, Entry.dir)
  let empty : World := {
    volume := dirs.foldl (fun v d => v.put d.1 d.2) Program.hostVolume
    cwd, home := ⟨(env.get? (ofText "HOME")).getD []⟩
    trace := [], output := [], complaints := [] }
  let paths := ((CommandLine.Request.read env args).toOption.map (watched env)).getD []
  return ((← paths.filterM isThere).foldl (fun w p => addFile p w) empty)

end PinnedDeps.Main

open PinnedDeps PinnedDeps.Main in
def main (args : List String) : IO UInt32 := do
  let args := args.map Bytes.ofText
  let env ← readEnviron
  let around : CommandLine.Surroundings :=
    { environ := env, host, jobs := 4, elapsed := fun _ => ⟨0, 0⟩ }
  let (code, w) := CommandLine.run around args outside (← readWorld env args)
  (← IO.getStdout).write ⟨w.output.toArray⟩
  (← IO.getStderr).write ⟨w.complaints.toArray⟩
  return UInt32.ofNat code
