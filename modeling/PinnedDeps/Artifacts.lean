import PinnedDeps.Action.Files

/-!
The files that a library installs, where they land, and copying them out of an install prefix. A link is
copied as a link of the same text, so that alias chains survive.
-/
namespace PinnedDeps

structure Layout where
  root : Path
  lib : Path
  bin : Path
  deriving DecidableEq, Repr

namespace Layout

def libDir (l : Layout) : Path := l.root.join l.lib

def binDir (l : Layout) : Path := l.root.join l.bin

end Layout

structure Artifacts where
  lib : List String
  bin : List String
  deriving DecidableEq, Repr

open PinnedDeps.Action

def replaceEntry (src dst : Path) : Action IoError Unit := do
  permit (.inspect src)
  match ← ask fun v cwd => v.entryAt cwd src with
  | (_, .link target) =>
    removeFileIfThere dst
    permit (.link dst)
    change fun v cwd => v.makeLink cwd target dst
  | _ =>
    removeFileIfThere dst
    copyFile src dst

def copyArtifact (src dst : Path) : Action BuildError Unit :=
  (replaceEntry src dst).mapError (.copy src dst)

def copyArtifacts (src dst : Path) (names : List String) : Action BuildError Unit :=
  names.forM fun n => copyArtifact (src / n) (dst / n)

namespace Artifacts

def paths (a : Artifacts) (l : Layout) : List Path :=
  a.lib.map (fun n : String => l.libDir / n) ++ a.bin.map (fun n : String => l.binDir / n)

/-- Copies the files from `lib` and `bin` below the prefix. -/
def installFrom (a : Artifacts) (pre : Path) (l : Layout) : Action BuildError Unit := do
  mapError .io do
    ensureDir l.libDir
    ensureDir l.binDir
  copyArtifacts (pre / "lib") l.libDir a.lib
  copyArtifacts (pre / "bin") l.binDir a.bin

end Artifacts

end PinnedDeps
