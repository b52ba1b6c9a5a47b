import PinnedDeps.Document
import PinnedDeps.Library.Build

/-!
What is written, for people and as data. Nothing is coloured unless the environment forces it, since the
output may go anywhere. A length of time is shown as milliseconds below a second, hundredths below a
minute, then minutes and seconds; what the text leaves out is cut off and never rounded up. A failure names
what was tried and the causes below it, outermost first. The fields of a report stand in the order of their
names.
-/
namespace PinnedDeps

structure Duration where
  seconds : Nat
  nanos : Nat
  deriving DecidableEq, Repr

namespace Duration

def millis (d : Duration) : Nat := d.nanos / 1000000

def totalMillis (d : Duration) : Nat := d.seconds * 1000 + d.millis

def twoDigits (n : Nat) : String := if n < 10 then s!"0{n}" else s!"{n}"

def render (d : Duration) : String :=
  if 60 ≤ d.seconds then s!"{d.seconds / 60}m {d.seconds % 60}s"
  else if 0 < d.seconds then s!"{d.seconds}.{twoDigits (d.millis / 10)}s"
  else s!"{d.millis}ms"

end Duration

namespace CommandLine

structure Failure where
  message : String
  causes : List String
  deriving DecidableEq, Repr

namespace Failure

def ofIo (e : IoError) : Failure := ⟨e.message, []⟩

/-- A refusal of the system is a cause of its own below the failure that names it. -/
def ofBuild (e : BuildError) : Failure := ⟨e.message, (e.cause?.map IoError.message).toList⟩

/-- Puts what was tried above a failure. -/
def during (attempt : String) (f : Failure) : Failure := ⟨attempt, f.message :: f.causes⟩

/-- Lines of a cause after its first are indented as far as its text. -/
def indent (lead : String) (s : String) : String :=
  let rest := String.ofList ('\n' :: List.replicate lead.length ' ')
  lead ++ rest.intercalate (s.splitOn "\n")

def numberWidth : Nat := 5

def numbered (n : Nat) (cause : String) : String :=
  let number := toString n
  indent ("".pushn ' ' (numberWidth - number.length) ++ number ++ ": ") cause

/-- A single cause has no number. -/
def causeLines : List String → List String
  | [cause] => [indent "    " cause]
  | causes => causes.zipIdx.map fun c => numbered c.2 c.1

def render (f : Failure) : String :=
  if f.causes.isEmpty then s!"Error: {f.message}"
  else s!"Error: {f.message}\n\nCaused by:\n" ++ "\n".intercalate (causeLines f.causes)

end Failure

open Bytes (ofText)

structure Style where
  coloured : Bool
  deriving DecidableEq, Repr

inductive Paint where
  | red
  | green
  | blue
  | dim
  deriving DecidableEq, Repr

namespace Paint

def start : Paint → String
  | red => "\x1b[31m"
  | green => "\x1b[32m"
  | blue => "\x1b[34m"
  | dim => "\x1b[2m"

def stop : Paint → String
  | dim => "\x1b[0m"
  | _ => "\x1b[39m"

end Paint

namespace Style

/-- Whether a level of colours is above zero; what cannot be read as a level counts as one. -/
def levelForces (level : String) : Bool :=
  if level = "false" then false
  else
    let digits := if level.startsWith "+" then level.toList.tail else level.toList
    digits.isEmpty || !digits.all (· = '0')

def ofEnviron (env : Environ) : Style :=
  match env.text? (ofText "FORCE_COLOR"), env.text? (ofText "CLICOLOR_FORCE") with
  | some level, _ => ⟨levelForces level⟩
  | none, some force => ⟨force ≠ "0"⟩
  | none, none => ⟨false⟩

def paint (style : Style) (p : Paint) (s : String) : String :=
  if style.coloured then p.start ++ s ++ p.stop else s

def info (style : Style) (message : String) : String := style.paint .blue "•" ++ " " ++ message

def success (style : Style) (message : String) : String := style.paint .green "✓" ++ " " ++ message

def failure (style : Style) (message : String) : String :=
  style.paint .red "✗" ++ " " ++ style.paint .red message

def stat (style : Style) (label value : String) : String :=
  "  " ++ style.paint .dim label ++ ": " ++ value

end Style

def writeLine (line : String) (w : World) : World :=
  { w with output := w.output ++ ofText (line ++ "\n") }

def complainLine (line : String) (w : World) : World :=
  { w with complaints := w.complaints ++ ofText (line ++ "\n") }

def say {ε : Type} (line : String) : Action ε Unit := modify (writeLine line)

def complain {ε : Type} (line : String) : Action ε Unit := modify (complainLine line)

/-- One library after a build. -/
structure BuildItem where
  library : Library
  status : BuildStatus
  elapsed : Duration
  deriving DecidableEq

def BuildItem.document (i : BuildItem) : Document := .record [
  ("duration_ms", .number i.elapsed.totalMillis),
  ("name", .text i.library.name),
  ("status", .text i.status.name),
  ("version", .text i.library.source.version)]

def buildDocument (target : Os) (items : List BuildItem) : Document := .record [
  ("dependencies", .list (items.map BuildItem.document)),
  ("target", .text target.name)]

/-- One library that was looked for. -/
structure CheckItem where
  library : Library
  isBuilt : Bool
  deriving DecidableEq, Repr

def CheckItem.document (i : CheckItem) : Document := .record [
  ("built", .flag i.isBuilt),
  ("name", .text i.library.name),
  ("version", .text i.library.source.version)]

def allBuilt (items : List CheckItem) : Bool := items.all CheckItem.isBuilt

def checkDocument (target : Os) (items : List CheckItem) : Document := .record [
  ("all_built", .flag (allBuilt items)),
  ("dependencies", .list (items.map CheckItem.document)),
  ("target", .text target.name)]

/-- The variables that a library changes, as text in the order of their names; of two that read alike
the later one counts. -/
def exportedTexts (changed : List (Bytes × Bytes)) : List (String × String) :=
  let read := fun p : Bytes × Bytes => (Bytes.lossy p.1, Bytes.lossy p.2)
  (Environ.ofPairs ((changed.map read).map fun p => (ofText p.1, ofText p.2))).pairs.map read

def envDocument (vars : List (String × String)) : Document :=
  .record (vars.map fun p => (p.1, .text p.2))

def envLine (p : String × String) : String := s!"{p.1}={p.2}"

end CommandLine
end PinnedDeps
