import PinnedDeps.Bytes

/-!
The systems that a library can be built for, and the machine that builds it. Every decision that
depends on the system is a match on `Os`.
-/
namespace PinnedDeps

inductive Os where
  | linux
  | macos
  | windows
  deriving DecidableEq, Repr

namespace Os

def name : Os → String
  | linux => "linux"
  | macos => "macos"
  | windows => "windows"

/-- The spelling that CMake uses for the system. -/
def cmakeName : Os → String
  | linux => "Linux"
  | macos => "Darwin"
  | windows => "Windows"

/-- What stands between two directories in a search path. -/
def listSeparator : Os → String
  | windows => ";"
  | linux | macos => ":"

def makeProgram : Os → String
  | windows => "mingw32-make"
  | linux | macos => "make"

end Os

/-- A name that, in lower case, names no system. -/
structure UnknownTarget where
  lowered : String
  deriving DecidableEq, Repr

def UnknownTarget.message (e : UnknownTarget) : String :=
  s!"unknown target system '{e.lowered}' (expected linux, macos or windows)"

/-- Letters count in either case, but only those of ASCII. -/
def Os.parse (s : String) : Except UnknownTarget Os :=
  let lowered := s.map Char.toLower
  if lowered = "linux" then .ok .linux
  else if lowered = "macos" ∨ lowered = "darwin" then .ok .macos
  else if lowered = "windows" then .ok .windows
  else .error ⟨lowered⟩

/-- A processor. One without a case of its own is carried along by its name. -/
inductive Arch where
  | x8664
  | i686
  | aarch64
  | arm
  | other (name : String)
  deriving DecidableEq, Repr

namespace Arch

def ofName (s : String) : Arch :=
  if s = "x86_64" then .x8664
  else if s = "x86" then .i686
  else if s = "aarch64" then .aarch64
  else if s = "arm" then .arm
  else .other s

def name : Arch → String
  | x8664 => "x86_64"
  | i686 => "i686"
  | aarch64 => "aarch64"
  | arm => "arm"
  | other s => s

def isKnown : Arch → Bool
  | other _ => false
  | _ => true

end Arch

structure Platform where
  arch : Arch
  os : Os
  deriving DecidableEq, Repr

def Platform.triple (p : Platform) : String := s!"{p.arch.name}-{p.os.name}"

/-- Building for a system counts as a cross build only if it is named and is not the host. -/
def isCross (target : Option Os) (host : Os) : Bool := target.any (· ≠ host)

end PinnedDeps
