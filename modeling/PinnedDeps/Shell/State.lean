import PinnedDeps.Environ
import PinnedDeps.Program

/-!
The state of a running shell, and the small steps on it: variables, output, leaving.
-/
namespace PinnedDeps.Shell

open Bytes (ofText)

/-- Where a descriptor writes to. -/
inductive Sink where
  | nowhere
  | capture
  | file (l : Location)
  deriving DecidableEq

/-- `strict` makes a failing command end the script; `inner` is the status of the last script whose
output became part of the current command. -/
structure State where
  volume : Volume
  cwd : Location
  pwd : Path
  vars : Environ
  exported : List Bytes
  name : Bytes
  args : List Bytes
  status : Nat
  inner : Nat
  input : Bytes
  sinks : List (Nat × Sink)
  captured : Bytes
  strict : Bool

inductive Leave where
  | exit (status : Nat)
  | signal (n : Nat)
  deriving DecidableEq

abbrev Running := ExceptT Leave (StateM State)

def setStatus (n : Nat) : Running Unit := modify fun s => { s with status := n }

def setVar (name value : Bytes) : Running Unit :=
  modify fun s => { s with vars := s.vars.set name value }

def write (fd : Nat) (b : Bytes) : Running Unit :=
  modify fun s => match s.sinks.lookup fd with
    | some .capture => { s with captured := s.captured ++ b }
    | some (.file l) => { s with volume := s.volume.append l b }
    | some .nowhere | none => s

def environ (s : State) : Environ :=
  Environ.ofPairs (s.vars.pairs.filter fun p => s.exported.contains p.1)

/-- Tries a change of the volume and says whether it was made. -/
def attempt (f : Volume → Location → Except IoError Volume) : Running Bool := do
  let s ← get
  match f s.volume s.cwd with
  | .ok v =>
    modify fun s => { s with volume := v }
    return true
  | .error _ => return false

def look {α : Type} (f : Volume → Location → α) : Running α := do
  let s ← get
  return f s.volume s.cwd

/-- Runs something whose changes to the shell itself do not last. -/
def apart (a : Running Unit) : Running Unit := do
  let outer ← get
  let (result, inner) := (a.run).run outer
  set { outer with volume := inner.volume, captured := inner.captured, status := inner.status }
  match result with
  | .ok () => return ()
  | .error (.exit n) => setStatus n
  | .error (.signal n) => throw (.signal n)

/-- Runs something and hands back what it wrote. -/
def capturing (a : Running Unit) : Running Bytes := do
  let outer ← get
  set { outer with captured := [], sinks := (1, .capture) :: outer.sinks.filter (·.1 ≠ 1) }
  apart a
  let text := (← get).captured
  modify fun s => { s with captured := outer.captured, sinks := outer.sinks }
  return text

def decimal (n : Nat) : Bytes := ofText (toString n)

def natural? (b : Bytes) : Option Nat :=
  if b = [] then none
  else
    b.foldlM (fun n d => if 0x30 ≤ d ∧ d ≤ 0x39 then some (n * 10 + (d.toNat - 0x30)) else none) 0

/-- The number that stands for the process of the shell. -/
def processNumber : Nat := 4321

end PinnedDeps.Shell
