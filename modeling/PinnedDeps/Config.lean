import PinnedDeps.Cmake
import PinnedDeps.Environ
import PinnedDeps.Artifacts
import PinnedDeps.Platform

/-!
What a build needs to know. The directory of dependencies is absolute, since programs that run in
other directories are told of it.
-/
namespace PinnedDeps

structure Config where
  deps : Path
  layout : Layout
  target : Option Os
  host : Platform
  env : Environ
  /-- Where a maintenance run leaves its markers. -/
  maintenance : Option Path
  programs : Cmake.Programs
  deriving DecidableEq

namespace Config

def maintenanceVar : String := "ALUSUS_TMP_DIR"

/-- Stands while the library paths in the install tree are being changed. -/
def updateMarker : String := "UPDATING_RPATHS"

def ofEnviron (cwd deps : Path) (layout : Layout) (env : Environ) (host : Platform) (jobs : Nat) :
    Except IoError Config := do
  return {
    deps := ← deps.absolute cwd
    layout, host, env
    target := none
    maintenance := (env.get? (Bytes.ofText maintenanceVar)).map Path.mk
    programs := ⟨"cmake", host.os.makeProgram, jobs⟩ }

def withTarget (c : Config) (target : Option Os) : Config := { c with target }

def withHost (c : Config) (host : Platform) : Config := { c with host }

/-- There is always at least one job. -/
def withJobs (c : Config) (n : Nat) : Config :=
  { c with programs := { c.programs with jobs := max n 1 } }

def withCmake (c : Config) (program : String) : Config :=
  { c with programs := { c.programs with cmake := program } }

def withMake (c : Config) (program : String) : Config :=
  { c with programs := { c.programs with make := program } }

/-- The system that the artifacts are for. -/
def targetOs (c : Config) : Os := c.target.getD c.host.os

def isCross (c : Config) : Bool := PinnedDeps.isCross c.target c.host.os

def updating (c : Config) (view : View) : Bool :=
  c.maintenance.any fun dir => view.leadsSomewhere (dir / updateMarker)

end Config
end PinnedDeps
