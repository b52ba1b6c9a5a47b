import PinnedDeps.Outside
import PinnedDeps.Shell.Run

/-!
Starting a command as a process of its own. What it reads is empty and what it reports as errors is
not kept; what it leaves is the volume, its output, and how it ended.
-/
namespace PinnedDeps

namespace Command

open Bytes (ofText)

def hasNul (c : Command) : Bool :=
  (c.directory.bytes :: (c.program :: c.arguments).map ofText ++
    c.environ.pairs.flatMap fun p => [p.1, p.2]).any Bytes.hasNul

/-- A variable as a process is told of it. -/
def entry (p : Bytes × Bytes) : Bytes := p.1 ++ 0x3d :: p.2

/-- The longest single argument or variable that a process can be given. -/
def textLimit : Nat := 131071

def fits (c : Command) : Bool :=
  ((c.program :: c.arguments).map ofText ++ c.environ.pairs.map entry).all (·.length ≤ textLimit)

end Command

namespace Shell

open Bytes (ofText)

/-- What a shell makes of a variable that it is told of. Not every name is one for a shell. -/
def readEntry (e : Bytes) : Option (Bytes × Bytes) :=
  let name := e.takeWhile isNameByte
  match e.drop name.length with
  | 0x3d :: value => if name.head?.any isNameStart then some (name, value) else none
  | _ => none

def inherited (env : Environ) : Environ :=
  Environ.ofPairs (env.pairs.filterMap fun p => readEntry (Command.entry p))

/-- The name that the environment gives the working directory, if it does lead there. -/
def knownDirectory (v : Volume) (cwd : Location) (env : Environ) : Path :=
  match (env.get? (ofText "PWD")).map Path.mk with
  | some p => if p.isAbsolute ∧ (v.stat cwd p).toOption = some (cwd, .dir) then p else cwd.path
  | none => cwd.path

def initial (v : Volume) (cwd : Location) (env : Environ) : State :=
  let pwd := knownDirectory v cwd env
  let vars := (inherited env).set (ofText "PWD") pwd.bytes
  { volume := v, cwd, pwd, vars
    exported := vars.pairs.map (·.1)
    name := ofText "sh", args := [], status := 0, inner := 0, input := []
    sinks := [(1, .capture), (2, .nowhere)]
    captured := [], strict := false }

def execute (image : Image) : Running Nat :=
  if image.native = ofText "sh" then runShell maxDepth image.arguments
  else match utility? image.native with
    | some u => u image.arguments
    | none => return notFoundStatus

def ending : Except Leave Nat → ExitStatus
  | .ok n | .error (.exit n) => .code (n % 256)
  | .error (.signal n) => .signal n

end Shell

namespace Command

/-- Starts a command in its own directory and waits for its end. -/
def perform (c : Command) (cwd : Location) (v : Volume) : Except IoError Outcome := do
  if c.hasNul then .error .nulInCommand
  else match ← v.stat cwd c.directory with
    | (dir, .dir) =>
      let arguments := c.arguments.map Bytes.ofText
      let image ← Program.find v dir c.environ (Bytes.ofText c.program) arguments
      if !c.fits then .error SystemError.argumentsTooLong
      let (result, left) := ((Shell.execute image).run).run (Shell.initial v dir c.environ)
      return ⟨left.volume, left.captured, Shell.ending result⟩
    | _ => .error SystemError.notDirectory

end Command
end PinnedDeps
