import PinnedDeps.CommandLine.Report
import PinnedDeps.CommandLine.Request
import PinnedDeps.Library

/-!
Running a command line. A run always ends with an exit code: 0 if all went well, 1 if a library is
missing or a command failed, 2 if the arguments could not be read.
-/
namespace PinnedDeps.CommandLine

open Bytes (ofText)

/-- What a run finds around it. -/
structure Surroundings where
  environ : Environ
  host : Platform
  jobs : Nat
  /-- How long the work on each library takes. -/
  elapsed : Library → Duration

abbrev Attempt := Action Failure

def orThrow {α : Type} : Except Failure α → Attempt α
  | .ok a => pure a
  | .error f => throw f

/-- Goes on with a failure of a build instead of ending with it. -/
def onFailure {α : Type} (a : Action BuildError α) (f : BuildError → Attempt α) : Attempt α :=
  fun o w => match a.run o w with
    | (.ok x, w) => (.ok x, w)
    | (.error e, w) => f e o w

/-- The name that stands for every library. -/
def allName : String := "all"

def knownNames : String :=
  "known dependencies: " ++ ", ".intercalate (Library.all.map Library.name ++ [allName])

def select (name : String) : Except Failure (List Library) :=
  if name = allName then .ok Library.all
  else ((Library.named name).map ([·])).mapError fun e => .during knownNames (.ofBuild e)

def configure (s : Surroundings) (cwd : Path) (place : Place) (layout : Layout)
    (programs : Programs) :
    Except Failure Config := do
  let c ← (Config.ofEnviron cwd place.deps layout s.environ s.host s.jobs).mapError fun e =>
    .during "Failed to set up build configuration" (.ofBuild (.io e))
  let c := c.withTarget place.target
  let c := (programs.jobs.map c.withJobs).getD c
  let c := (programs.cmake.map c.withCmake).getD c
  return (programs.make.map c.withMake).getD c

def workingDir : Attempt Path := do return (← get).cwd.path

def tellBuilt (style : Style) (target : Os) (i : BuildItem) : Attempt Unit := do
  match i.status with
  | .alreadyBuilt => say (style.success s!"{i.library.display} is already built.")
  | .built =>
    say (style.success s!"Built {i.library.display}.")
    say (style.stat "Target" target.name)
    say (style.stat "Duration" i.elapsed.render)

/-- Builds one library; a failure is announced before the command ends with it. -/
def buildOne (s : Surroundings) (style : Style) (c : Config) (quiet : Bool) (lib : Library) :
    Attempt BuildItem := do
  if !quiet then say (style.info s!"Building {lib.display}...")
  let status ← onFailure (lib.build c) fun e => do
    complain (style.failure s!"Building {lib.display}.")
    throw (.during s!"Failed to build {lib.display}" (.ofBuild e))
  let item : BuildItem := ⟨lib, status, s.elapsed lib⟩
  if !quiet then tellBuilt style c.targetOs item
  return item

def runBuild (s : Surroundings) (style : Style) (c : Config) (json : Bool) (libs : List Library) :
    Attempt Nat := do
  let items ← libs.mapM (buildOne s style c json)
  if json then say (buildDocument c.targetOs items).render
  return 0

def tellChecked (style : Style) (i : CheckItem) : Attempt Unit :=
  if i.isBuilt then say (style.success s!"{i.library.display} is built.")
  else complain (style.failure s!"{i.library.display} is not built.")

def checkItems (c : Config) (view : View) (libs : List Library) : List CheckItem :=
  libs.map fun lib => ⟨lib, lib.isBuilt c view⟩

def runCheck (style : Style) (c : Config) (json : Bool) (libs : List Library) : Attempt Nat := do
  let items := checkItems c (← Action.view) libs
  if json then say (checkDocument c.targetOs items).render else items.forM (tellChecked style)
  return if allBuilt items then 0 else 1

/-- The variables that a library changes. -/
def changedBy (s : Surroundings) (lib : Library) (deps : Path) (target : Option Os) :
    List (String × String) :=
  exportedTexts ((lib.overlay deps target s.host.os s.environ).changedFrom s.environ)

def runEnv (s : Surroundings) (place : Place) (json : Bool) (name : String) : Attempt Nat := do
  let lib ← orThrow ((Library.named name).mapError .ofBuild)
  let deps ← orThrow ((place.deps.absolute (← workingDir)).mapError fun e =>
    .during "Failed to resolve deps path" (.ofIo e))
  let vars := changedBy s lib deps place.target
  if json then say (envDocument vars).render else vars.forM fun p => say (envLine p)
  return 0

def runInfo (s : Surroundings) (style : Style) : Attempt Nat := do
  say "System:"
  say (style.stat "Platform" s.host.triple)
  say ""
  say "Dependencies:"
  Library.all.forM fun lib => say (style.stat lib.name s!"{lib.source.version} ({lib.source.url})")
  return 0

def Request.perform (s : Surroundings) : Request → Attempt Nat
  | .build name place layout programs json => do
    let libs ← orThrow (select name)
    let c ← orThrow (configure s (← workingDir) place layout programs)
    runBuild s (.ofEnviron s.environ) c json libs
  | .check name place layout json => do
    let libs ← orThrow (select name)
    let c ← orThrow (configure s (← workingDir) place layout ⟨none, none, none⟩)
    runCheck (.ofEnviron s.environ) c json libs
  | .env name place json => runEnv s place json name
  | .info => runInfo s (.ofEnviron s.environ)

def versionLine : String := "builddeps 0.1.0"

def usage : String :=
  "Usage: builddeps [-v] build|check|env <library|all> [settings], or builddeps info"

/-- The exit code of a run, and what it leaves. -/
def run (s : Surroundings) (args : List Bytes) (o : Outside) (w : World) : Nat × World :=
  match Request.read s.environ args with
  | .error .help => (0, writeLine usage w)
  | .error .version => (0, writeLine versionLine w)
  | .error .misuse => (2, complainLine usage w)
  | .ok r => match (r.perform s).run o w with
    | (.ok code, w) => (code, w)
    | (.error f, w) => (1, complainLine f.render w)

end PinnedDeps.CommandLine
