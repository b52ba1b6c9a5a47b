import PinnedDeps.BuildError
import PinnedDeps.Environ
import PinnedDeps.Volume.Operation

/-!
Everything the library does not decide. `Outside` is what servers answer, what digests are, what archives
hold and what programs do. `Machine` adds its limits: what it refuses to do with a file though the tree
allows it, and where a writing ends early. An `Outside` alone stands for a machine without limits, as a
privileged process finds it that has room for all it writes.
-/
namespace PinnedDeps

/-- An answer of a server. `body` is absent if it ended before its announced length. -/
structure Response where
  status : Nat
  reason : String
  body : Option Bytes
  deriving DecidableEq, Repr

/-- The requests that were made for one URL, and the last answer. -/
structure Exchange where
  requests : List String
  answer : Except FetchCause Response

/-- What a member's body is read into. `cut` says that the archive gave out before its end. -/
structure Body where
  bytes : Bytes
  cut : Bool
  deriving DecidableEq, Repr

/-- Directories are made after everything else, except those that only their name tells. -/
inductive MemberKind where
  | dir (late : Bool)
  | file (body : Body)
  | symlink (target : Option Bytes)
  | hardLink (target : Option Bytes)
  /-- A record about the archive itself; nothing is made for it. -/
  | note
  deriving DecidableEq, Repr

structure Member where
  path : Bytes
  kind : MemberKind
  mode : Option Nat
  deriving DecidableEq, Repr

/-- `intact` says that the last member was followed by an end of the archive and not by damage. -/
structure Archive where
  members : List Member
  intact : Bool
  deriving DecidableEq, Repr

def Archive.cons (m : Member) (a : Archive) : Archive := { a with members := m :: a.members }

/-- The environment is complete: the program sees these variables and no others. -/
structure Command where
  program : String
  arguments : List String
  directory : Path
  environ : Environ
  deriving DecidableEq

inductive ExitStatus where
  | code (n : Nat)
  | signal (n : Nat)
  deriving DecidableEq, Repr

namespace ExitStatus

def success : ExitStatus := code 0

def code? : ExitStatus → Option Int
  | code n => some n
  | signal _ => none

end ExitStatus

/-- What a program leaves behind: the volume, what it wrote to its output, and how it ended. -/
structure Outcome where
  volume : Volume
  output : Bytes
  status : ExitStatus
  deriving DecidableEq, Repr

structure Outside where
  exchange : String → Exchange
  digest : Bytes → String
  archive : Bytes → Archive
  spawn : Command → Location → Volume → Except IoError Outcome

/-- What can be refused for a reason that is not in the tree, such as missing rights or a full disk. -/
inductive Call where
  | inspect (p : Path)
  | remove (p : Path)
  | link (p : Path)
  | read (p : Path)
  | write (p : Path)
  | setMode (p : Path)
  deriving DecidableEq, Repr

structure Machine extends Outside where
  refuses : Call → View → Option SystemError
  /-- Only the tree decides what is missing. -/
  refuses_ne_noEntry : ∀ c s, refuses c s ≠ some .noEntry
  /-- How many of the bytes reach the file before its writing fails, and why it does. -/
  cutsShort : Location → Bytes → View → Option (Nat × SystemError)

/-- The machine that refuses nothing and takes every byte. -/
abbrev Outside.machine (o : Outside) : Machine where
  toOutside := o
  refuses _ _ := none
  refuses_ne_noEntry _ _ := nofun
  cutsShort _ _ _ := none

instance : Coe Outside Machine := ⟨Outside.machine⟩

end PinnedDeps
