import PinnedDeps.Cmake
import PinnedDeps.Config
import PinnedDeps.Library
import PinnedDeps.Source
import PinnedDeps.Toolchain

/-!
Building a library: unless all its files are installed, get its source, compile it into a prefix and
copy the files from there.
-/
namespace PinnedDeps

open PinnedDeps.Action Cmake

inductive BuildStatus where
  | alreadyBuilt
  | built
  deriving DecidableEq, Repr

def BuildStatus.name : BuildStatus → String
  | alreadyBuilt => "already_built"
  | built => "built"

namespace Library

/-- Every file is there, links followed, and no maintenance run is changing them. -/
def isBuilt (lib : Library) (c : Config) (view : View) : Bool :=
  !c.updating view && ((lib.artifacts c.targetOs).paths c.layout).all view.leadsSomewhere

/-- The arguments of the host phase of zlib, and of its only phase in a native build. -/
def zlibArguments (view : View) (c : Config) (phase : Phase) (env : Environ) : Arguments :=
  .release view (zlib.source.srcDir c.deps) (phase.installDir zlib c.deps) env c.host.os

/-- The arguments of the host phase, turned into those of the target phase. -/
def zlibTargetArguments (view : View) (c : Config) (target : Os) (host : Arguments)
    (env : Environ) : Arguments :=
  let moved := host.define Arguments.installPrefix (Phase.target.installDir zlib c.deps).shown
  ((moved.defineTools view env Arguments.binutils).crossCompile target c.host.arch.name).defineTools
    view env (Arguments.platformTools target)

/-- Brotli is always told that it is cross compiled; a system only if one is named. -/
def brotliArguments (view : View) (c : Config) (env : Environ) : Arguments :=
  let pre := Phase.native.installDir brotli c.deps
  let a := (Arguments.releaseWithBinutils view (brotli.source.srcDir c.deps) pre env).define
    "CMAKE_SYSTEM_PROCESSOR" c.host.arch.name |>.define "CMAKE_CROSSCOMPILING" "TRUE"
  match c.target with
  | some target => a.define "CMAKE_SYSTEM_NAME" target.cmakeName
  | none => a

def compilePhase (lib : Library) (c : Config) (phase : Phase) (step : String) (a : Arguments)
    (env : Environ) : Action BuildError Unit :=
  configureAndInstall c.programs step a (phase.buildDir lib c.deps) env

def compileCross (c : Config) (target : Os) : Action BuildError Unit := do
  let view ← Action.view
  let hostEnv := c.env.forHost view c.host.os
  let args := zlibArguments view c .host hostEnv
  compilePhase zlib c .host "zlib (host)" args hostEnv
  let view ← Action.view
  let env := c.env.pinCompilers view
  compilePhase zlib c .target "zlib (target)" (zlibTargetArguments view c target args env) env

/-- Configures, builds and installs into the prefix of each phase. -/
def compile (lib : Library) (c : Config) : Action BuildError Unit := do
  match lib, c.target.filter (· ≠ c.host.os) with
  | .zlib, some target => compileCross c target
  | .zlib, none => do
    let view ← Action.view
    let env := c.env.pinCompilers view
    compilePhase zlib c .native "zlib" (zlibArguments view c .native env) env
  | .brotli, _ => do
    let view ← Action.view
    let env := c.env.pinCompilers view
    compilePhase brotli c .native "brotli" (brotliArguments view c env) env

/-- On Windows zlib makes one of its import libraries only under one of the two names. -/
def install (lib : Library) (c : Config) : Action BuildError Unit := do
  let pre := (Phase.last lib c.target c.host.os).installDir lib c.deps
  if lib = zlib ∧ c.targetOs = .windows then
    copyArtifact (pre / "lib" / "libzlib.dll.a") (pre / "lib" / "libz.dll.a")
  (lib.artifacts c.targetOs).installFrom pre c.layout

def build (lib : Library) (c : Config) : Action BuildError BuildStatus := do
  if lib.isBuilt c (← Action.view) then return .alreadyBuilt
  mapError .io do
    ensureDir c.deps
    ensureDir c.layout.root
  discard (lib.source.acquire c.deps)
  lib.compile c
  lib.install c
  return .built

end Library
end PinnedDeps
