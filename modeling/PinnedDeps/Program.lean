import PinnedDeps.Outside
import PinnedDeps.Volume.Operation

/-!
Finding the program that a command means. The programs that a host brings along stand in its two
program directories; any other program is a script that names one of them in its first line.
-/
namespace PinnedDeps

/-- One of the programs of the host, and its arguments. -/
structure Image where
  native : Bytes
  arguments : List Bytes
  deriving DecidableEq, Repr

namespace Program

open Bytes (ofText slash)

def hostPrograms : List Bytes :=
  ["sh", "cat", "chmod", "cp", "echo", "false", "kill", "ln", "mkdir", "mv", "printf", "pwd", "rm",
    "rmdir", "test", "touch", "true"].map ofText

def binDir : Location := [ofText "bin"]
def usrBinDir : Location := [ofText "bin", ofText "usr"]
def nullDevice : Location := [ofText "null", ofText "dev"]

/-- The bytes that a program of the host starts with. -/
def nativeMark : Bytes := 0x7f :: ofText "ELF"

/-- A volume with the programs of a host and nothing else. -/
def hostVolume : Volume :=
  let dirs : List Location := [usrBinDir.tail, usrBinDir, binDir, nullDevice.tail, [ofText "tmp"]]
  let programs := hostPrograms.flatMap fun n =>
    [binDir, usrBinDir].map fun d => (n :: d, Entry.file ⟨nativeMark, 0o755, none⟩)
  .ofList (dirs.map (·, Entry.dir) ++ programs ++ [(nullDevice, .file ⟨[], 0o666, none⟩)])

def native? (l : Location) : Option Bytes :=
  match l with
  | n :: d => if (d = binDir ∨ d = usrBinDir) ∧ n ∈ hostPrograms then some n else none
  | [] => none

def isBlank (b : UInt8) : Bool := b == 0x20 || b == 0x09

def trimBlanks (b : Bytes) : Bytes := ((b.dropWhile isBlank).reverse.dropWhile isBlank).reverse

/-- The interpreter that a script names, and the one argument that may follow it. -/
def interpreter? (b : Bytes) : Option (Bytes × Option Bytes) :=
  match b with
  | 0x23 :: 0x21 :: rest =>
    let line := trimBlanks ((rest.takeWhile (· ≠ Bytes.newline)).take 254)
    let name := line.takeWhile fun c => !isBlank c
    let argument := trimBlanks (line.drop name.length)
    if name = [] then none else some (name, if argument = [] then none else some argument)
  | _ => none

/-- Programs that name one another as interpreters are followed so many times. -/
def maxInterpreters : Nat := 6

def load (v : Volume) (cwd : Location) : Nat → Path → List Bytes → Except IoError Image
  | 0, _, _ => .error SystemError.tooManyLinks
  | n + 1, p, arguments => do
    match ← v.stat cwd p with
    | (l, .file f) =>
      if !f.isExecutable then .error SystemError.accessDenied
      else match native? l, interpreter? f.bytes with
        | some name, _ => .ok ⟨name, arguments⟩
        | none, some (name, argument) =>
          load v cwd n ⟨name⟩ (argument.toList ++ p.bytes :: arguments)
        | none, none => .error SystemError.notExecutable
    | _ => .error SystemError.accessDenied

/-- Errors that a further directory may make up for. -/
def passable (e : IoError) : Bool :=
  [SystemError.noEntry, .notDirectory, .accessDenied].any fun s => e == .system s

/-- Tries one path after another; that access was denied somewhere counts only in the end. -/
def searchIn (v : Volume) (cwd : Location) (arguments : List Bytes) :
    Bool → List Bytes → Except IoError Image
  | denied, [] => .error (if denied then SystemError.accessDenied else SystemError.noEntry)
  | denied, p :: rest =>
    match load v cwd maxInterpreters ⟨p⟩ arguments with
    | .ok image => .ok image
    | .error e =>
      if passable e then searchIn v cwd arguments (denied || e == .system .accessDenied) rest
      else .error e

def defaultPath : Bytes := ofText "/bin:/usr/bin"

/-- Where a name is looked for, in this order. -/
def places (env : Environ) (name : Bytes) : List Bytes :=
  if slash ∈ name then [name]
  else (((env.get? (ofText "PATH")).getD defaultPath).splitOn 0x3a).map fun d =>
    if d = [] then name else d ++ slash :: name

/-- The program that a name means in a working directory and an environment. -/
def find (v : Volume) (cwd : Location) (env : Environ) (name : Bytes) (arguments : List Bytes) :
    Except IoError Image :=
  if name = [] then .error SystemError.noEntry
  else if slash ∈ name then load v cwd maxInterpreters ⟨name⟩ arguments
  else if Volume.nameLimit < name.length then .error SystemError.nameTooLong
  else searchIn v cwd arguments false (places env name)

end Program
end PinnedDeps
