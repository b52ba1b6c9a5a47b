import PinnedDeps.Artifacts
import PinnedDeps.Source
import PinnedDeps.Toolchain

/-!
The libraries that can be built, their pinned sources, the files they install, and the phases of their
builds. Each phase works in a directory of its own and installs into a prefix of its own. Later build
steps find a library through the directories of its prefixes, which are put in front of the search paths.
-/
namespace PinnedDeps

inductive Library where
  | zlib
  | brotli
  deriving DecidableEq, Repr

namespace Library

/-- Every library, in build order. -/
def all : List Library := [zlib, brotli]

def source : Library → Source
  | zlib => {
      name := "zlib"
      version := "1.2.11"
      url := "https://sourceforge.net/projects/libpng/files/zlib/1.2.11/zlib-1.2.11.tar.gz"
      sha256 := some "c3e5e9fdd5004dcb542feda5ee4f0ff0744628baf8ed2dd5d66f8ca1197cb1a1" }
  | brotli => {
      name := "brotli"
      version := "1.0.7"
      url := "https://github.com/google/brotli/archive/v1.0.7.tar.gz"
      sha256 := some "4c61bfb0faca87219ea587326c467b95acb25555b53d1a421ffa3c8a9296ee2c" }

def name (lib : Library) : String := lib.source.name

def display (lib : Library) : String := lib.source.display

def ofName? (s : String) : Option Library := all.find? fun lib => lib.name = s

def named (s : String) : Except BuildError Library :=
  match ofName? s with
  | some lib => .ok lib
  | none => .error (.unknownDependency s)

/-- The parts that Brotli is split into. -/
def brotliParts : List String := ["libbrotlicommon", "libbrotlidec", "libbrotlienc"]

def artifacts : Library → Os → Artifacts
  | zlib, .windows => ⟨["libzlib.dll.a", "libz.dll.a"], ["libzlib.dll"]⟩
  | zlib, .linux => ⟨["libz.so.1.2.11", "libz.so.1", "libz.so"], []⟩
  | zlib, .macos => ⟨["libz.1.2.11.dylib", "libz.1.dylib", "libz.dylib"], []⟩
  | brotli, .windows => ⟨brotliParts.map (· ++ ".dll.a"), brotliParts.map (· ++ ".dll")⟩
  | brotli, .linux =>
    ⟨brotliParts.flatMap fun p => [p ++ ".so.1.0.7", p ++ ".so.1", p ++ ".so"], []⟩
  | brotli, .macos =>
    ⟨brotliParts.flatMap fun p => [p ++ ".1.0.7.dylib", p ++ ".1.dylib", p ++ ".dylib"], []⟩

end Library

inductive Phase where
  | native
  | host
  | target
  deriving DecidableEq, Repr

namespace Phase

def mark : Phase → String
  | native => ""
  | host => "host."
  | target => "target."

def buildDir (p : Phase) (lib : Library) (deps : Path) : Path :=
  lib.source.workDir deps (p.mark ++ "build")

def installDir (p : Phase) (lib : Library) (deps : Path) : Path :=
  lib.source.workDir deps (p.mark ++ "install")

/-- The phase whose prefix holds the files to install. -/
def last (lib : Library) (target : Option Os) (host : Os) : Phase :=
  match lib with
  | .zlib => if isCross target host then .target else .native
  | .brotli => .native

end Phase

open Bytes (ofText)

/-- A list variable and the directory to put in front of it. -/
abbrev Export := String × Path

/-- What each prefix of a library offers. -/
def Library.exports (lib : Library) (deps : Path) (target : Option Os) (host : Os) : List Export :=
  let native := Phase.native.installDir lib deps
  match lib with
  | .brotli =>
    [("LIBRARY_PATH", native / "lib"), ("PKG_CONFIG_PATH", native / "lib" / "pkgconfig"),
      ("CPATH", native / "include")]
  | .zlib =>
    if isCross target host then
      let onHost := Phase.host.installDir lib deps
      let onTarget := Phase.target.installDir lib deps
      [(hostMark ++ "PATH", onHost / "bin"), (hostMark ++ "LD_LIBRARY_PATH", onHost / "lib"),
        (hostMark ++ "LIBRARY_PATH", onHost / "lib"), (hostMark ++ "CPATH", onHost / "include"),
        (hostMark ++ "PKG_CONFIG_PATH", onHost / "share" / "pkgconfig"),
        ("CPATH", onTarget / "include"), ("LIBRARY_PATH", onTarget / "lib"),
        ("PKG_CONFIG_PATH", onTarget / "share" / "pkgconfig")]
    else
      [("CPATH", native / "include"), ("LIBRARY_PATH", native / "lib"),
        ("PKG_CONFIG_PATH", native / "share" / "pkgconfig")]

/-- Names the target prefix of a zlib cross build. -/
def zlibRootVar : String := "ZLIB_ROOT_DIR"

def Library.rootDir? (lib : Library) (deps : Path) (target : Option Os) (host : Os) : Option Path :=
  if lib = .zlib ∧ isCross target host then some (Phase.target.installDir lib deps) else none

def Environ.prependAll (env : Environ) (sep : String) (es : List Export) : Environ :=
  es.foldl (fun e x => e.prepend (ofText x.1) x.2.bytes (ofText sep)) env

def Library.overlay (lib : Library) (deps : Path) (target : Option Os) (host : Os)
    (base : Environ) : Environ :=
  let env := base.prependAll host.listSeparator (lib.exports deps target host)
  match lib.rootDir? deps target host with
  | some dir => env.set (ofText zlibRootVar) dir.bytes
  | none => env

end PinnedDeps
