import PinnedDeps.Bytes

/-!
The words of the command line: what can be done, and what can be set for it. A setting has a long
name, may have a letter, and some fall back to an environment variable.
-/
namespace PinnedDeps.CommandLine

inductive Setting where
  | verbose
  | help
  | version
  | json
  | deps
  | target
  | root
  | lib
  | bin
  | jobs
  | cmake
  | make
  deriving DecidableEq, Repr

namespace Setting

def long : Setting → String
  | verbose => "verbose"
  | help => "help"
  | version => "version"
  | json => "json"
  | deps => "deps-path"
  | target => "target"
  | root => "install-root"
  | lib => "lib-dir"
  | bin => "bin-dir"
  | jobs => "jobs"
  | cmake => "cmake"
  | make => "make"

def letter? : Setting → Option Char
  | verbose => some 'v'
  | help => some 'h'
  | version => some 'V'
  | jobs => some 'j'
  | _ => none

def takesValue : Setting → Bool
  | verbose | help | version | json => false
  | _ => true

/-- The variable that holds the value of a setting that is not given. -/
def environName? : Setting → Option String
  | deps => some "BUILDDEPS_DEPS_PATH"
  | root => some "BUILDDEPS_INSTALL_ROOT"
  | cmake => some "BUILDDEPS_CMAKE"
  | make => some "BUILDDEPS_MAKE"
  | _ => none

def named? (among : List Setting) (name : Bytes) : Option Setting :=
  among.find? fun s => Bytes.ofText s.long = name

def lettered? (among : List Setting) (letter : UInt8) : Option Setting :=
  among.find? fun s => s.letter?.any fun c => Bytes.ofText c.toString = [letter]

end Setting

inductive Verb where
  | build
  | check
  | env
  | info
  deriving DecidableEq, Repr

namespace Verb

def all : List Verb := [build, check, env, info]

def name : Verb → String
  | build => "build"
  | check => "check"
  | env => "env"
  | info => "info"

def named? (name : Bytes) : Option Verb := all.find? fun v => Bytes.ofText v.name = name

def depsSettings : List Setting := [.deps, .target]

def layoutSettings : List Setting := depsSettings ++ [.root, .lib, .bin]

def settings : Verb → List Setting
  | build => layoutSettings ++ [.jobs, .cmake, .make, .json, .verbose, .help]
  | check => layoutSettings ++ [.json, .verbose, .help]
  | env => depsSettings ++ [.json, .verbose, .help]
  | info => [.verbose, .help]

/-- Whether the name of a library has to follow. -/
def takesLibrary : Verb → Bool
  | info => false
  | _ => true

end Verb

/-- What can be set in front of a verb. -/
def leadingSettings : List Setting := [.verbose, .help, .version]

end PinnedDeps.CommandLine
