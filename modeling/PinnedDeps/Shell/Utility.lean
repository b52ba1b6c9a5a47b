import PinnedDeps.Shell.Format

/-!
The programs that a host brings along, apart from the shell itself. Each answers with its exit
status; what it has to say about an error is not kept.
-/
namespace PinnedDeps.Shell

open Bytes (ofText)

abbrev Utility := List Bytes → Running Nat

/-- Splits leading options, given as letters, from the operands. -/
def options : List Bytes → Bytes × List Bytes
  | [] => ([], [])
  | a :: rest =>
    if a = ofText "--" then ([], rest)
    else match a with
      | 0x2d :: c :: more =>
        let (letters, operands) := options rest
        (c :: more ++ letters, operands)
      | _ => ([], a :: rest)

def has (letters : Bytes) (c : Char) : Bool := letters.contains (UInt8.ofNat c.toNat)

/-- The status of several operands: a failure of one does not stop the others. -/
def each (operands : List Bytes) (f : Path → Running Bool) : Running Nat := do
  let done ← operands.mapM fun o => f ⟨o⟩
  return if done.all id then 0 else 1

def fileText (p : Path) : Running (Option Bytes) :=
  look fun v cwd => (v.readFile cwd p).toOption

def cat : Utility := fun args => do
  if args.isEmpty then
    write 1 (← get).input
    modify fun s => { s with input := [] }
    return 0
  each args fun p => do
    match ← fileText p with
    | some b =>
      write 1 b
      return true
    | none => return false

/-- Makes each directory on the way to a path; those that are there are left alone. -/
def makeParents (p : Path) : Running Bool := do
  let done ← (p.ancestors.reverse.filter fun q => q.bytes ≠ []).mapM fun q => do
    if ← attempt fun v cwd => v.makeDir cwd q then return true
    else look fun v cwd => v.leadsToDir cwd q
  return done.all id

def mkdir : Utility := fun args => do
  let (letters, operands) := options args
  each operands fun p =>
    if has letters 'p' then makeParents p else attempt fun v cwd => v.makeDir cwd p

def lastName (p : Path) : Path := ⟨(p.segments.getLast?).getD []⟩

/-- Where an operand lands: inside the destination if that is a directory. -/
def landing (src dst : Path) : Running Path := do
  if ← look fun v cwd => v.leadsToDir cwd dst then return dst.join (lastName src) else return dst

def linkOne (symbolic force : Bool) (src dst : Path) : Running Bool := do
  let dst ← landing src dst
  let make := attempt fun v cwd =>
    if symbolic then v.makeLink cwd src.bytes dst else v.hardLink cwd src dst
  if ← make then return true
  else if force then
    if ← attempt fun v cwd => v.removeFile cwd dst then make else return false
  else return false

/-- Operands but the last, and the last. -/
def sourcesAndTarget (operands : List Bytes) : List Bytes × Path :=
  (operands.dropLast, ⟨(operands.getLast?).getD []⟩)

def ln : Utility := fun args => do
  let (letters, operands) := options args
  let (sources, target) := sourcesAndTarget operands
  if sources.isEmpty then return 1
  each sources fun p => linkOne (has letters 's') (has letters 'f') p target

/-- Removes a directory with all that lies in it. -/
def removeTree (p : Path) : Running Bool := do
  match ← look fun v cwd => v.entryAt cwd p with
  | .ok (top, .dir) =>
    attempt fun v _ => .ok ⟨v.entries.filter fun e => ¬ Volume.Below e.1 top⟩
  | .ok _ => attempt fun v cwd => v.removeFile cwd p
  | .error _ => return false

def rm : Utility := fun args => do
  let (letters, operands) := options args
  each operands fun p => do
    let isThere ← look fun v cwd => (v.entryAt cwd p).isOk
    if !isThere then return has letters 'f'
    else if has letters 'r' || has letters 'R' then removeTree p
    else attempt fun v cwd => v.removeFile cwd p

def rmdir : Utility := fun args => each args fun p => attempt fun v cwd => v.removeDir cwd p

def writeOver (p : Path) (mode : Nat) (b : Bytes) : Running Bool :=
  attempt fun v cwd => do
    let (l, v) ← v.openFile cwd p mode false
    return v.append l b

def cp : Utility := fun args => do
  let (sources, target) := sourcesAndTarget (options args).2
  if sources.isEmpty then return 1
  each sources fun p => do
    match ← look fun v cwd => v.stat cwd p with
    | .ok (_, .file f) => writeOver (← landing p target) f.mode f.bytes
    | _ => return false

def mv : Utility := fun args => do
  let (sources, target) := sourcesAndTarget (options args).2
  if sources.isEmpty then return 1
  each sources fun p => do
    let dst ← landing p target
    attempt fun v cwd => v.rename cwd p dst

def touch : Utility := fun args => do
  each (options args).2 fun p => do
    if ← look fun v cwd => v.leadsSomewhere cwd p then return true
    else attempt fun v cwd => (v.openFile cwd p Volume.plainMode true).map (·.2)

/-- The mode that a text makes of another: octal digits, or execute bits added or taken. -/
def newMode (text : Bytes) (old : Nat) : Option Nat :=
  if text = ofText "+x" ∨ text = ofText "a+x" then some (old ||| 0o111)
  else if text = ofText "u+x" then some (old ||| 0o100)
  else if text = ofText "-x" ∨ text = ofText "a-x" then some (old - (old &&& 0o111))
  else if text ≠ [] ∧ text.all isOctal then
    some (text.foldl (fun n d => n * 8 + (d.toNat - 0x30)) 0)
  else none

def chmod : Utility := fun args => do
  match args with
  | mode :: operands => each operands fun p => do
    match ← look fun v cwd => v.stat cwd p with
    | .ok (l, .file f) =>
      match newMode mode f.mode with
      | some m => attempt fun v _ => .ok (v.setMode l m)
      | none => return false
    | .ok _ => return true
    | .error _ => return false
  | [] => return 1

def signalNumber? (b : Bytes) : Option Nat :=
  match natural? b with
  | some n => some n
  | none => (([("HUP", 1), ("INT", 2), ("QUIT", 3), ("ILL", 4), ("ABRT", 6), ("FPE", 8),
      ("KILL", 9), ("USR1", 10), ("SEGV", 11), ("USR2", 12), ("PIPE", 13), ("ALRM", 14),
      ("TERM", 15)] : List (String × Nat)).map fun p => (ofText p.1, p.2)).lookup b

/-- Ends the shell if a signal is sent to it. -/
def kill : Utility := fun args => do
  let (signal, targets) := match args with
    | [0x2d, 0x73] :: name :: rest => (signalNumber? name, rest)
    | (0x2d :: name) :: rest => (signalNumber? name, rest)
    | rest => (some 15, rest)
  match signal with
  | some 0 => return 0
  | some n => if targets.contains (decimal processNumber) then throw (.signal n) else return 1
  | none => return 1

def compareNumbers (op : Bytes) (a b : Nat) : Option Bool :=
  ([("-eq", a == b), ("-ne", a != b), ("-lt", a < b), ("-le", a ≤ b), ("-gt", b < a),
    ("-ge", b ≤ a)].map fun p => (ofText p.1, p.2)).lookup op

def testPath (op : UInt8) (p : Path) : Running Bool :=
  look fun v cwd => match Char.ofNat op.toNat, v.stat cwd p, v.entryAt cwd p with
    | 'e', .ok _, _ | 'r', .ok _, _ | 'w', .ok _, _ => true
    | 'f', .ok (_, .file _), _ => true
    | 'd', .ok (_, .dir), _ => true
    | 'x', .ok (_, .dir), _ => true
    | 'x', .ok (_, .file f), _ => f.isExecutable
    | 's', .ok (_, .file f), _ => !f.bytes.isEmpty
    | 'L', _, .ok (_, .link _) | 'h', _, .ok (_, .link _) => true
    | _, _, _ => false

/-- The conditions of `test`; no answer to one that cannot be read. -/
def condition : List Bytes → Running (Option Bool)
  | [] => return some false
  | [a] => return some !a.isEmpty
  | [a, b] => do
    if a = ofText "!" then return some b.isEmpty
    else match a with
      | [0x2d, 0x6e] => return some !b.isEmpty
      | [0x2d, 0x7a] => return some b.isEmpty
      | [0x2d, op] => return some (← testPath op ⟨b⟩)
      | _ => return none
  | [a, op, b] => do
    if op = [0x3d] then return some (a == b)
    else if op = ofText "!=" then return some (a != b)
    else match natural? a, natural? b with
      | some m, some n => return compareNumbers op m n
      | _, _ =>
        if a = ofText "!" then return (← condition [op, b]).map (!·) else return none
  | a :: rest => if a = ofText "!" then return (← condition rest).map (!·) else return none

def test : Utility := fun args => do
  match ← condition args with
  | some true => return 0
  | some false => return 1
  | none => return 2

def utility? (name : Bytes) : Option Utility :=
  ([("cat", cat), ("chmod", chmod), ("cp", cp), ("kill", kill), ("ln", ln), ("mkdir", mkdir),
    ("mv", mv), ("rm", rm), ("rmdir", rmdir), ("test", test), ("touch", touch),
    ("true", fun _ => return 0), ("false", fun _ => return 1),
    ("echo", fun args => do write 1 (echoText args); return 0),
    ("printf", fun args => do write 1 (printfText (args.headD []) args.tail); return 0),
    ("pwd", fun _ => do write 1 ((← get).pwd.bytes ++ [Bytes.newline]); return 0)] :
    List (String × Utility)).map (fun p => (ofText p.1, p.2)) |>.lookup name

end PinnedDeps.Shell
