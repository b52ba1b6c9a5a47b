import PinnedDeps.Outside

/-!
Actions on a volume in steps. `World` is the state, with a trace of every step, so that a run that is cut
off has reached one of the volumes in its trace.
-/
namespace PinnedDeps

inductive Event where
  | changed (after : Volume)
  | requested (requests : List String)
  | started (command : Command) (before : Volume) (result : Except IoError Outcome)

/-- `trace` has the last event first. What was written is kept apart for the two channels. -/
structure World extends View where
  trace : List Event
  output : Bytes
  complaints : Bytes

abbrev Action (ε α : Type) := ReaderT Machine (ExceptT ε (StateM World)) α

namespace Action

def run {ε α : Type} (a : Action ε α) (m : Machine) (w : World) : Except ε α × World := a m w

def mapError {ε ε' α : Type} (f : ε → ε') (a : Action ε α) : Action ε' α := fun o =>
  ExceptT.adapt f (a o)

def record {ε : Type} (e : Event) : Action ε Unit :=
  modify fun w => { w with trace := e :: w.trace }

def look {ε α : Type} (f : Volume → Location → α) : Action ε α := do
  let w ← get
  return f w.volume w.cwd

def view {ε : Type} : Action ε View := return (← get).toView

def ask {α : Type} (f : Volume → Location → Except IoError α) : Action IoError α := do
  liftExcept (← look f)
where
  liftExcept {β : Type} : Except IoError β → Action IoError β
    | .ok b => pure b
    | .error e => throw e

/-- Makes a volume the current one, as one step. -/
def commit {ε : Type} (v : Volume) : Action ε Unit :=
  modify fun w => { w with volume := v, trace := .changed v :: w.trace }

def change (f : Volume → Location → Except IoError Volume) : Action IoError Unit := do
  commit (← ask f)

def changeAt (f : Volume → Location → Except IoError (Location × Volume)) :
    Action IoError Location := do
  let (l, v) ← ask f
  commit v
  return l

/-- Goes on unless the machine refuses a call. -/
def permit (c : Call) : Action IoError Unit := do
  match (← read).refuses c (← view) with
  | some e => throw (.system e)
  | none => return ()

/-- Goes on without an effect where nothing was there to act on. -/
def ifThere (a : Action IoError Unit) : Action IoError Unit :=
  tryCatch a fun e => if e = .system .noEntry then pure () else throw e

end Action

end PinnedDeps
