import PinnedDeps.Action.Files
import PinnedDeps.Toolchain

/-!
The two programs of a build: the arguments of the configure step, and running the programs. Definitions
keep the order in which their keys were first defined; defining a key again replaces its value where it
stands. A program that cannot be started, is killed, or ends with another code than 0 fails the step, and
nothing after it is started.
-/
namespace PinnedDeps.Cmake

structure Arguments where
  sourceDir : Path
  defines : List (String × String)
  generator : Option String
  deriving DecidableEq, Repr

def assign (k v : String) : List (String × String) → List (String × String)
  | [] => [(k, v)]
  | e :: rest => if e.1 = k then (k, v) :: rest else e :: assign k v rest

theorem lookup_assign (k v j : String) (es : List (String × String)) :
    (assign k v es).lookup j = if j = k then some v else es.lookup j := by
  induction es with
  | nil => exact Pairs.lookup_cons_if (k, v) [] j
  | cons e rest ih =>
    rw [assign]
    split
    · rename_i same
      simp only [Pairs.lookup_cons_if, same]
      split <;> rfl
    · rename_i other
      rw [Pairs.lookup_cons_if, Pairs.lookup_cons_if, ih]
      by_cases h : j = e.1
      · simp [h, other]
      · simp [h]

theorem keys_assign (k v : String) (es : List (String × String)) :
    (assign k v es).map Prod.fst =
      if k ∈ es.map Prod.fst then es.map Prod.fst else es.map Prod.fst ++ [k] := by
  induction es with
  | nil => rfl
  | cons e rest ih =>
    obtain ⟨l, w⟩ := e
    by_cases h : l = k
    · simp [assign, h]
    · have hk : ¬ k = l := fun g => h g.symm
      simp only [assign, if_neg h, List.map_cons, List.mem_cons, hk, false_or, ih]
      split <;> rfl

theorem nodup_keys_assign (k v : String) {es : List (String × String)}
    (h : (es.map Prod.fst).Nodup) : ((assign k v es).map Prod.fst).Nodup := by
  rw [keys_assign]
  split
  · exact h
  · rename_i hk
    exact List.nodup_append.mpr ⟨h, by simp, fun a ha b hb => by
      rw [List.mem_singleton.mp hb]
      exact fun e => hk (e ▸ ha)⟩

namespace Arguments

def ofSource (dir : Path) : Arguments := ⟨dir, [], none⟩

def define (a : Arguments) (k v : String) : Arguments := { a with defines := assign k v a.defines }

def get? (a : Arguments) (k : String) : Option String := a.defines.lookup k

theorem get?_define (a : Arguments) (k v j : String) :
    (a.define k v).get? j = if j = k then some v else a.get? j :=
  lookup_assign k v j a.defines

def withGenerator (a : Arguments) (g : String) : Arguments := { a with generator := some g }

def defineTool (view : View) (env : Environ) (a : Arguments) (e : String × Tool) : Arguments :=
  a.define e.1 (e.2.resolve view env)

def binutils : List (String × Tool) :=
  [("CMAKE_RANLIB", .ranlib), ("CMAKE_AR", .ar), ("CMAKE_LINKER", .ld), ("CMAKE_STRIP", .strip)]

/-- The definitions that carry the tools of one system. -/
def platformTools : Os → List (String × Tool)
  | .macos => [("CMAKE_INSTALL_NAME_TOOL", .installNameTool), ("CMAKE_OTOOL", .otool)]
  | .windows => [("CMAKE_RC_COMPILER", .resourceCompiler)]
  | .linux => []

def defineTools (a : Arguments) (view : View) (env : Environ) (tools : List (String × Tool)) :
    Arguments :=
  tools.foldl (defineTool view env) a

def installPrefix : String := "CMAKE_INSTALL_PREFIX"

/-- A release build into a prefix, with the binary utilities of the environment. -/
def releaseWithBinutils (view : View) (dir pre : Path) (env : Environ) : Arguments :=
  (((ofSource dir).define "CMAKE_BUILD_TYPE" "Release").define installPrefix pre.shown).defineTools
    view env binutils

/-- A release build with the further tools that its host needs. -/
def release (view : View) (dir pre : Path) (env : Environ) (host : Os) : Arguments :=
  let a := (releaseWithBinutils view dir pre env).defineTools view env (platformTools host)
  match host with
  | .windows => (a.withGenerator "MinGW Makefiles").define "CMAKE_SH" "CMAKE_SH-NOTFOUND"
  | .linux | .macos => a

/-- Marks a build as one for another system. -/
def crossCompile (a : Arguments) (target : Os) (processor : String) : Arguments :=
  ((a.define "CMAKE_CROSSCOMPILING" "TRUE").define "CMAKE_SYSTEM_NAME" target.cmakeName).define
    "CMAKE_SYSTEM_PROCESSOR" processor

def toList (a : Arguments) : List String :=
  a.sourceDir.shown :: a.defines.map (fun e => s!"-D{e.1}={e.2}") ++
    match a.generator with
    | some g => ["-G", g]
    | none => []

end Arguments

open PinnedDeps.Action

/-- The two programs of a build, and how many jobs the second may run at once. -/
structure Programs where
  cmake : String
  make : String
  jobs : Nat
  deriving DecidableEq, Repr

/-- Starts a command and waits for its end. -/
def start (c : Command) : Action BuildError Outcome := do
  let w ← get
  let result := (← read).spawn c w.cwd w.volume
  record (.started c w.volume result)
  match result with
  | .error cause => throw (.spawn c.program cause)
  | .ok o =>
    modify fun w => { w with volume := o.volume, output := w.output ++ o.output }
    return o

def run (step : String) (c : Command) : Action BuildError Unit := do
  let o ← start c
  if o.status = .success then return () else throw (.commandFailed step c.program o.status.code?)

def configureCommand (p : Programs) (a : Arguments) (dir : Path) (env : Environ) : Command :=
  ⟨p.cmake, a.toList, dir, env⟩

def makeCommand (p : Programs) (dir : Path) (env : Environ) : Command :=
  ⟨p.make, [s!"-j{p.jobs}", "install"], dir, env⟩

/-- Configures in a directory, made if it is missing, and builds and installs from there. -/
def configureAndInstall (p : Programs) (step : String) (a : Arguments) (dir : Path)
    (env : Environ) : Action BuildError Unit := do
  mapError .io (ensureDir dir)
  run step (configureCommand p a dir env)
  run step (makeCommand p dir env)

end PinnedDeps.Cmake
