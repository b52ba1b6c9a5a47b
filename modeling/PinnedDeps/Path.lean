import PinnedDeps.Bytes
import PinnedDeps.SystemError

/-!
Paths as they are written. Joining is textual and normalises nothing. The components of a path leave
out repeated slashes and every inner `.`, and keep `..`.
-/
namespace PinnedDeps

structure Path where
  bytes : Bytes
  deriving DecidableEq, Repr

inductive Component where
  | root
  | current
  | up
  | name (n : Bytes)
  deriving DecidableEq, Repr

namespace Path

open Bytes (slash dot)

def ofText (s : String) : Path := ⟨Bytes.ofText s⟩

instance : Coe String Path := ⟨ofText⟩

/-- The path as it is shown in messages and handed on as text. -/
def shown (p : Path) : String := Bytes.lossy p.bytes

def isAbsolute (p : Path) : Bool := p.bytes.head? == some slash

/-- An absolute second path replaces the first; otherwise one slash stands between the two. -/
def join (p q : Path) : Path :=
  if q.isAbsolute then q
  else if p.bytes = [] ∨ p.bytes.getLast? = some slash then ⟨p.bytes ++ q.bytes⟩
  else ⟨p.bytes ++ slash :: q.bytes⟩

instance : HDiv Path String Path := ⟨fun p s => p.join (ofText s)⟩

/-- What stands between the slashes, empty parts left out. -/
def segments (p : Path) : List Bytes := (p.bytes.splitOn slash).filter (· ≠ [])

def componentOfSegment (s : Bytes) : Component := if s = [dot, dot] then .up else .name s

/-- A leading `.` counts, any other is dropped. -/
def components (p : Path) : List Component :=
  let named := (p.segments.filter (· ≠ [dot])).map componentOfSegment
  if p.isAbsolute then .root :: named
  else if p.segments.head? = some [dot] then .current :: named
  else named

def Component.path : Component → Path
  | .root => ⟨[slash]⟩
  | .current => ⟨[dot]⟩
  | .up => ⟨[dot, dot]⟩
  | .name n => ⟨n⟩

/-- Joins components onto a path, one after another. -/
def extend (p : Path) (cs : List Component) : Path :=
  cs.foldl (fun q c => q.join (Component.path c)) p

def ofComponents (cs : List Component) : Path := extend ⟨[]⟩ cs

/-- The path without its last component; nothing is above the root or the empty path. -/
def parent? (p : Path) : Option Path :=
  match p.components.getLast? with
  | none | some .root => none
  | some _ => some (ofComponents p.components.dropLast)

/-- The path and what is above it, nearest first. -/
def ancestors (p : Path) : List Path :=
  let cs := p.components
  let kept := cs.drop (if cs.head? = some .root then 1 else 0)
  p :: (List.range kept.length).map fun i => ofComponents (cs.take (cs.length - 1 - i))

def endsInSlash (p : Path) : Bool := p.bytes.getLast? == some slash

/-- Makes a path independent of the working directory. Two leading slashes and a trailing one have
a meaning of their own and stay. -/
def absolute (p cwd : Path) : Except IoError Path :=
  if p.bytes = [] then .error .emptyPath
  else
    let named := p.components.filter fun c => c ≠ .root ∧ c ≠ .current
    let double := [slash, slash].isPrefixOf p.bytes && !([slash, slash, slash].isPrefixOf p.bytes)
    let base : Path := if double then ⟨[slash, slash]⟩ else if p.isAbsolute then ⟨[slash]⟩ else cwd
    let full := extend base named
    .ok (if p.endsInSlash then full.join ⟨[]⟩ else full)

theorem join_absolute {p q : Path} (h : q.isAbsolute = true) : p.join q = q := by
  simp [join, h]

theorem isAbsolute_join {p q : Path} (h : p.isAbsolute = true) : (p.join q).isAbsolute = true := by
  unfold join
  split
  · assumption
  · cases hp : p.bytes with
    | nil => simp [isAbsolute, hp] at h
    | cons a rest =>
      have : a = slash := by simpa [isAbsolute, hp] using h
      split <;> simp [isAbsolute, this]

end Path
end PinnedDeps
