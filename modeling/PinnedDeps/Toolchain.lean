import PinnedDeps.Environ
import PinnedDeps.Platform
import PinnedDeps.Volume.Operation

/-!
The tools of a build, and the environments that builds run in. A tool is configured by a variable, has a
conventional name where the variable is unset, and is looked up on the search path of the environment it
will run in. In these environments the compilers are pinned, and for tools that must run on the host
during a cross build, the variables of the target are replaced by those of the host.

How a program is found on a search path is no part of the library. The rules that it relies on are fixed
here as the definitions of `Lookup`.
-/
namespace PinnedDeps

open Bytes (ofText)

inductive Tool where
  | cc
  | cxx
  | ar
  | assembler
  | ranlib
  | nm
  | strip
  | ld
  | resourceCompiler
  | installNameTool
  | otool
  deriving DecidableEq, Repr

/-- Marks the variables that describe the toolchain of the host during a cross build. -/
def hostMark : String := "ALUSUS_HOST_"

namespace Tool

/-- The tools that every build configures. -/
def common : List Tool := [cc, cxx, ar, assembler, ranlib, nm, strip, ld]

/-- The tools that only exist for one system. -/
def ofPlatform : Os → List Tool
  | .windows => [resourceCompiler]
  | .macos => [installNameTool, otool]
  | .linux => []

def var : Tool → String
  | cc => "CC"
  | cxx => "CXX"
  | ar => "AR"
  | assembler => "AS"
  | ranlib => "RANLIB"
  | nm => "NM"
  | strip => "STRIP"
  | ld => "LD"
  | resourceCompiler => "RC"
  | installNameTool => "INSTALL_NAME_TOOL"
  | otool => "OTOOL"

def hostVar (t : Tool) : String := hostMark ++ t.var

def fallback : Tool → String
  | cc => "clang"
  | cxx => "clang++"
  | ar => "ar"
  | assembler => "as"
  | ranlib => "ranlib"
  | nm => "nm"
  | strip => "strip"
  | ld => "ld"
  | resourceCompiler => "windres"
  | installNameTool => "install_name_tool"
  | otool => "otool"

/-- The configured program, before it is looked up. -/
def program (t : Tool) (env : Environ) : String := env.textD (ofText t.var) t.fallback

end Tool

namespace Lookup

def listSeparator : UInt8 := 0x3a

/-- A directory of a search path; one that starts with `~` lies below the home directory. -/
def directory (home : Path) (entry : Bytes) : Path :=
  match (Path.mk entry).components with
  | .name [0x7e] :: rest => home.extend rest
  | _ => ⟨entry⟩

/-- Where a program is looked for, in this order. Only a name of one component is looked for on the
search path. -/
def candidates (view : View) (searchPath : Option Bytes) (name : String) : List Path :=
  let p := Path.ofText name
  if 1 < p.components.length then
    [if p.isAbsolute then p else view.cwd.path.extend (p.components.dropWhile (· == .current))]
  else
    (searchPath.map fun list =>
      (list.splitOn listSeparator).map fun entry => (directory view.home entry).join p).getD []

/-- The first candidate that is a program, and the name itself where there is none. -/
def resolve (view : View) (env : Environ) (name : String) : String :=
  match (candidates view (env.get? (ofText "PATH")) name).find? view.leadsToProgram with
  | some p => p.shown
  | none => name

end Lookup

def Tool.resolve (t : Tool) (view : View) (env : Environ) : String :=
  Lookup.resolve view env (t.program env)

/-- The variables through which a compiler finds the files of one system. -/
def searchVars : List String :=
  ["LIBRARY_PATH", "CPATH", "C_INCLUDE_PATH", "CPLUS_INCLUDE_PATH", "PKG_CONFIG_PATH"]

namespace Environ

/-- Sets the variables of both compilers to what they resolve to here. -/
def pinCompilers (view : View) (env : Environ) : Environ :=
  [Tool.cc, Tool.cxx].foldl
    (fun e t => e.set (ofText t.var) (ofText (t.resolve view env))) env

def setHostTool (view : View) (base env : Environ) (t : Tool) : Environ :=
  let program := base.textD (ofText t.hostVar) t.fallback
  env.set (ofText t.var) (ofText (Lookup.resolve view base program))

def setHostSearch (base env : Environ) (var : String) : Environ :=
  match base.get? (ofText (hostMark ++ var)) with
  | some value => env.set (ofText var) value
  | none => env.remove (ofText var)

/-- The environment for tools that run on the host. All is read from the base, and only then are the
compilers pinned. -/
def forHost (view : View) (base : Environ) (host : Os) : Environ :=
  let tooled := (Tool.common ++ Tool.ofPlatform host).foldl (setHostTool view base) base
  (searchVars.foldl (setHostSearch base) tooled).pinCompilers view

end Environ

end PinnedDeps
