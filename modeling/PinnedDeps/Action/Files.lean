import PinnedDeps.Action

/-!
Actions on files that take several steps: making a directory with its parents, removing a tree from
the leaves up, writing and copying files.

Replacing an entry and copying and writing files ask the machine, which may refuse any of their steps and cut
the bytes short. Making directories and removing trees is only refused by what stands in the tree. In which
order the entries of a tree are removed is up to the system; here it is fixed as a definition, with longer
locations first, so that each directory comes after what is in it.
-/
namespace PinnedDeps.Action

open Bytes (dot slash)

/-- Of a path and the paths above it, those that have to be made, nearest to the root first. The
search ends at the first directory that is there or can be made. -/
def makeNearest : List Path → List Path → Action IoError (List Path)
  | [], missing => return missing
  | p :: above, missing =>
    if p.bytes = [] ∨ p.parent? = none then return missing
    else do
      let made ← tryCatch (do change fun v cwd => v.makeDir cwd p; return true) fun e => do
        if e = .system .noEntry then return false
        else if e = .system .alreadyExists ∧ (← look fun v cwd => v.leadsToDir cwd p) then
          return true
        else throw e
      if made then return missing else makeNearest above (p :: missing)

/-- Makes a directory unless it is there. -/
def ensureMade (p : Path) : Action IoError Unit :=
  tryCatch (change fun v cwd => v.makeDir cwd p) fun e => do
    if e = .system .alreadyExists ∧ (← look fun v cwd => v.leadsToDir cwd p) then return ()
    else throw e

/-- Makes a directory and whatever is missing above it. -/
def ensureDir (p : Path) : Action IoError Unit := do
  (← makeNearest p.ancestors []).forM ensureMade

def removeFileIfThere (p : Path) : Action IoError Unit := ifThere do
  permit (.remove p)
  change fun v cwd => v.removeFile cwd p

/-- What lies strictly below a location, deepest first. -/
def inside (v : Volume) (top : Location) : List Location :=
  ((v.entries.map (·.1)).filter fun l => Volume.Below l top ∧ l ≠ top).mergeSort
    fun a b => b.length ≤ a.length

/-- Removes a directory with all that is in it; of a link only the link itself. -/
def removeTree (p : Path) : Action IoError Unit := do
  match ← ask fun v cwd => v.entryAt cwd p with
  | (_, .link _) => change fun v cwd => v.removeFile cwd p
  | (_, .file _) => throw (.system .notDirectory)
  | (top, .dir) =>
    (← look fun v _ => inside v top).forM fun l => do
      commit (← look fun v _ => v.erase l)
    change fun v cwd => v.removeDir cwd p

def removeTreeIfThere (p : Path) : Action IoError Unit := ifThere (removeTree p)

/-- Writes bytes behind those of a file, or as many of them as the machine takes. -/
def writeBytes (l : Location) (b : Bytes) : Action IoError Unit := do
  match (← read).cutsShort l b (← view) with
  | none => commit (← look fun v _ => v.append l b)
  | some (n, e) =>
    commit (← look fun v _ => v.append l (b.take n))
    throw (.system e)

/-- Makes a file, or empties the one that is there, and then writes its bytes. -/
def writeFile (p : Path) (b : Bytes) : Action IoError Unit := do
  permit (.write p)
  let l ← changeAt fun v cwd => v.openFile cwd p Volume.plainMode false
  writeBytes l b

/-- Copies the bytes and the permission bits of a file. -/
def copyFile (src dst : Path) : Action IoError Unit := do
  permit (.read src)
  match ← ask fun v cwd => v.stat cwd src with
  | (_, .file f) =>
    permit (.write dst)
    let l ← changeAt fun v cwd => v.openFile cwd dst f.mode false
    permit (.setMode dst)
    commit (← look fun v _ => v.setMode l f.mode)
    writeBytes l f.bytes
  | _ => throw .notRegularFile

end PinnedDeps.Action
