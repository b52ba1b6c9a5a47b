import PinnedDeps.Path
import PinnedDeps.Volume.Basic

/-!
Following a path through a volume. Links on the way are followed, at most `maxLinks` of them; a link
at the end is followed on request. A path that ends in a slash must lead to a directory.
-/
namespace PinnedDeps

/-- Where a path leads: to a directory that is there, or to a name in one. -/
inductive Landing where
  | place (l : Location)
  | name (dir : Location) (n : Bytes)
  deriving DecidableEq, Repr

def Landing.location : Landing → Location
  | place l => l
  | name d n => n :: d

/-- The path that leads to a location from anywhere. -/
def Location.path (l : Location) : Path := Path.extend ⟨[Bytes.slash]⟩ (l.reverse.map .name)

namespace Volume

open Bytes (slash dot)

def maxLinks : Nat := 40
def nameLimit : Nat := 255
def pathLimit : Nat := 4095

/-- The parts to walk through, with a final `.` for a slash at the end. -/
def strides (b : Bytes) : List Bytes :=
  (b.splitOn slash).filter (· ≠ []) ++ (if b.getLast? = some slash then [[dot]] else [])

def startOf (dir : Location) (b : Bytes) : Location := if b.head? = some slash then [] else dir

/-- Walks as long as no link has to be followed; `onLink` continues from the directory of a link,
with its text and the parts that are left. -/
def walkPlain (v : Volume) (followLast : Bool)
    (onLink : Location → Bytes → List Bytes → Except SystemError Landing) :
    Location → List Bytes → Except SystemError Landing
  | dir, [] => .ok (.place dir)
  | dir, s :: rest =>
    if s = [dot] then walkPlain v followLast onLink dir rest
    else if s = [dot, dot] then walkPlain v followLast onLink dir.tail rest
    else if nameLimit < s.length then .error .nameTooLong
    else match v.lookup (s :: dir) with
      | some .dir =>
        if rest = [] then .ok (.name dir s) else walkPlain v followLast onLink (s :: dir) rest
      | some (.file _) => if rest = [] then .ok (.name dir s) else .error .notDirectory
      | some (.link t) =>
        if rest = [] ∧ followLast = false then .ok (.name dir s) else onLink dir t rest
      | none => if rest = [] then .ok (.name dir s) else .error .noEntry

def walk (v : Volume) (followLast : Bool) : Nat → Location → List Bytes → Except SystemError Landing
  | 0 => walkPlain v followLast fun _ _ _ => .error .tooManyLinks
  | n + 1 => walkPlain v followLast fun dir t rest =>
    walk v followLast n (startOf dir t) (strides t ++ rest)

/-- What can be wrong with a path before anything is looked up. -/
def checkPath (p : Path) : Except IoError Unit :=
  if p.bytes.hasNul then .error .nulInPath
  else if p.bytes = [] then .error SystemError.noEntry
  else if pathLimit < p.bytes.length then .error SystemError.nameTooLong
  else .ok ()

def lift {α : Type} : Except SystemError α → Except IoError α
  | .ok a => .ok a
  | .error e => .error e

/-- Follows a whole path. -/
def reach (v : Volume) (cwd : Location) (p : Path) (followLast : Bool) :
    Except IoError Landing := do
  checkPath p
  lift (walk v followLast maxLinks (startOf cwd p.bytes) (strides p.bytes))

/-- Follows a path up to its last name, for calls that make or remove that name. -/
def reachName (v : Volume) (cwd : Location) (p : Path) : Except IoError Landing := do
  checkPath p
  lift (walk v false maxLinks (startOf cwd p.bytes) p.segments)

end Volume
end PinnedDeps
