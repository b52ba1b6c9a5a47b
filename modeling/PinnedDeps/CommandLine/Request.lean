import PinnedDeps.CommandLine.Setting
import PinnedDeps.Config

/-!
Reading arguments from left to right, and what a command line then asks for, with every setting that was
left out filled in. The first argument that is wrong, or that asks for help, decides; a value is checked
where it stands, and nothing can be given twice.
-/
namespace PinnedDeps.CommandLine

open Bytes (ofText)

/-- Why the arguments do not become a request. -/
inductive Stop where
  | help
  | version
  | misuse
  deriving DecidableEq, Repr

/-- What the arguments say. -/
structure Given where
  seen : List Setting
  library : Option String
  deps : Option Path
  root : Option Path
  lib : Option Path
  bin : Option Path
  target : Option Os
  jobs : Option Nat
  cmake : Option String
  make : Option String
  deriving Repr

namespace Given

def nothing : Given := ⟨[], none, none, none, none, none, none, none, none, none⟩

/-- A path is any bytes but none. -/
def path? (b : Bytes) : Option Path := if b = [] then none else some ⟨b⟩

def target? (b : Bytes) : Option Os := (Bytes.toText? b).bind fun s => (Os.parse s).toOption

def maxJobs : Nat := 0xffffffffffffffff

/-- A count in decimal digits; a plus sign may stand in front. -/
def count? (b : Bytes) : Option Nat :=
  let digits := match b with
    | 0x2b :: rest => rest
    | _ => b
  if digits ≠ [] ∧ digits.all (fun d => 0x30 ≤ d ∧ d ≤ 0x39) then
    let n := digits.foldl (fun n d => n * 10 + (d.toNat - 0x30)) 0
    if n ≤ maxJobs then some n else none
  else none

def store (g : Given) (s : Setting) (v : Bytes) : Option Given :=
  match s with
  | .deps => (path? v).map fun p => { g with deps := some p }
  | .root => (path? v).map fun p => { g with root := some p }
  | .lib => (path? v).map fun p => { g with lib := some p }
  | .bin => (path? v).map fun p => { g with bin := some p }
  | .target => (target? v).map fun o => { g with target := some o }
  | .jobs => (count? v).map fun n => { g with jobs := some n }
  | .cmake => (Bytes.toText? v).map fun t => { g with cmake := some t }
  | .make => (Bytes.toText? v).map fun t => { g with make := some t }
  | .verbose | .json | .help | .version => some g

def orMisuse {α : Type} : Option α → Except Stop α
  | some a => .ok a
  | none => .error .misuse

def give (g : Given) (s : Setting) (v : Bytes) : Except Stop Given :=
  match s with
  | .help => .error .help
  | .version => .error .version
  | s =>
    if s ∈ g.seen then .error .misuse
    else orMisuse (({ g with seen := s :: g.seen } : Given).store s v)

/-- The one argument that may stand alone, behind a verb that takes it. -/
def giveLibrary (v : Verb) (g : Given) (b : Bytes) : Except Stop Given :=
  if g.library.isSome ∨ v.takesLibrary = false then .error .misuse
  else (orMisuse (Bytes.toText? b)).map fun t => { g with library := some t }

/-- Gives what a variable holds for each setting that no argument has given. -/
def fallBack (env : Environ) (g : Given) : List Setting → Except Stop Given
  | [] => .ok g
  | s :: rest => do
    let value := (s.environName?.filter fun _ => s ∉ g.seen).bind fun name => env.get? (ofText name)
    match value with
    | some v => fallBack env (← g.give s v) rest
    | none => fallBack env g rest

end Given

def dash : UInt8 := 0x2d

def endOfSettings : Bytes := [dash, dash]

/-- A single dash is no setting. -/
def isSetting (b : Bytes) : Bool := b.head? == some dash && 1 < b.length

/-- Reads letters that stand together. The rest behind one that takes a value is its value; without
a rest the setting still waits for it. -/
def giveLetters (among : List Setting) : Given → Bytes → Except Stop (Given × Option Setting)
  | g, [] => .ok (g, none)
  | g, c :: rest => do
    let s ← Given.orMisuse (Setting.lettered? among c)
    if s.takesValue then
      match rest with
      | [] => return (g, some s)
      | 0x3d :: v => return (← g.give s v, none)
      | v => return (← g.give s v, none)
    else giveLetters among (← g.give s []) rest

def giveLong (among : List Setting) (g : Given) (b : Bytes) :
    Except Stop (Given × Option Setting) := do
  let name := b.takeWhile (· ≠ 0x3d)
  let s ← Given.orMisuse (Setting.named? among name)
  match s.takesValue, b.drop name.length with
  | true, 0x3d :: v => return (← g.give s v, none)
  | true, _ => return (g, some s)
  | false, [] => return (← g.give s [], none)
  | false, _ => .error .misuse

/-- Reads one setting; a setting that still waits for its value is handed back. -/
def giveSetting (among : List Setting) (g : Given) (b : Bytes) :
    Except Stop (Given × Option Setting) :=
  match b with
  | _ :: 0x2d :: long => giveLong among g long
  | _ => giveLetters among g b.tail

/-- Reads everything behind a verb. -/
def readRest (verb : Verb) : Given → List Bytes → Except Stop Given
  | g, [] => .ok g
  | g, a :: rest =>
    if a = endOfSettings then rest.foldlM (Given.giveLibrary verb) g
    else if isSetting a then
      match giveSetting verb.settings g a with
      | .error e => .error e
      | .ok (g, none) => readRest verb g rest
      | .ok (g, some s) =>
        match rest with
        | [] => .error .misuse
        | v :: rest =>
          if isSetting v then .error .misuse else do readRest verb (← g.give s v) rest
    else do readRest verb (← g.giveLibrary verb a) rest

/-- A request for help may name one verb. -/
def readHelp : List Bytes → Stop
  | [] => .help
  | [topic] => if topic = ofText "help" ∨ (Verb.named? topic).isSome then .help else .misuse
  | _ => .misuse

/-- Finds the verb and what follows it. -/
def readVerb : Given → List Bytes → Except Stop (Verb × List Bytes)
  | _, [] => .error .misuse
  | g, a :: rest => do
    if a = ofText "help" then .error (readHelp rest)
    else match Verb.named? a with
      | some v => return (v, rest)
      | none =>
        if isSetting a ∧ a ≠ endOfSettings then
          readVerb (← giveSetting leadingSettings g a).1 rest
        else .error .misuse

/-- Where sources and builds lie, and what is built for. -/
structure Place where
  deps : Path
  target : Option Os
  deriving DecidableEq

/-- The programs and the number of jobs, where they differ from what a configuration starts with. -/
structure Programs where
  jobs : Option Nat
  cmake : Option String
  make : Option String
  deriving DecidableEq

inductive Request where
  | build (library : String) (place : Place) (layout : Layout) (programs : Programs) (json : Bool)
  | check (library : String) (place : Place) (layout : Layout) (json : Bool)
  | env (library : String) (place : Place) (json : Bool)
  | info
  deriving DecidableEq

namespace Given

def place (g : Given) : Place := ⟨g.deps.getD "Deps", g.target⟩

def layout (g : Given) : Layout := ⟨g.root.getD "Install", g.lib.getD "Lib", g.bin.getD "Bin"⟩

def programs (g : Given) : Programs := ⟨g.jobs, g.cmake, g.make⟩

def json (g : Given) : Bool := g.seen.contains .json

/-- A verb that takes a library must have one. -/
def request? (g : Given) (verb : Verb) : Option Request :=
  match verb, g.library with
  | .build, some library => some (.build library g.place g.layout g.programs g.json)
  | .check, some library => some (.check library g.place g.layout g.json)
  | .env, some library => some (.env library g.place g.json)
  | .info, _ => some .info
  | _, none => none

end Given

/-- Reads the arguments, and the variables that stand in for settings. -/
def Request.read (env : Environ) (args : List Bytes) : Except Stop Request := do
  let (verb, rest) ← readVerb .nothing args
  let given ← readRest verb .nothing rest
  Given.orMisuse ((← given.fallBack env verb.settings).request? verb)

end PinnedDeps.CommandLine
