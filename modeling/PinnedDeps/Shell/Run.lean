import PinnedDeps.Shell.Pattern
import PinnedDeps.Shell.Parser
import PinnedDeps.Shell.Utility

/-!
Running scripts: expanding words, redirecting, and the commands in their order. A run is bounded in
its depth; one that goes deeper is ended.
-/
namespace PinnedDeps.Shell

open Bytes (ofText slash)

/-- A piece of an expanded word, or a place where a new field begins. -/
inductive Frag where
  | text (b : Bytes) (quoted : Bool)
  | cut
  deriving DecidableEq

def isSeparator (b : UInt8) : Bool := b == 0x20 || b == 0x09 || b == 0x0a

/-- Cuts an unquoted value at its blanks. -/
def splitValue (b : Bytes) : List Frag :=
  let words := (b.map fun c => if isSeparator c then 0x20 else c).splitOn 0x20
  (words.map fun w => if w = [] then [] else [Frag.text w false]).intersperse [.cut] |>.flatten

def valueFrags (quoted : Bool) (b : Bytes) : List Frag :=
  if quoted then [.text b true] else splitValue b

def Frag.marked : Frag → Marked
  | .text b quoted => b.map (·, quoted)
  | .cut => []

/-- The fields that frags make up. One without any frag but empty unquoted text is none. -/
def fieldsOf (frags : List Frag) : List Marked :=
  ((frags.splitOn .cut).filter fun f => f.any fun
    | .text b quoted => quoted || !b.isEmpty
    | .cut => false).map fun f => f.flatMap Frag.marked

def argumentFrags (quoted : Bool) (args : List Bytes) : List Frag :=
  (args.map (valueFrags quoted)).intersperse [.cut] |>.flatten

/-- The value of a parameter, if it is set. -/
def parameter? (s : State) (name : Bytes) : Option Bytes :=
  match natural? name with
  | some 0 => some s.name
  | some n => s.args[n - 1]?
  | none =>
    if name = [0x23] then some (decimal s.args.length)
    else if name = [0x3f] then some (decimal s.status)
    else if name = [0x24] then some (decimal processNumber)
    else if name = [0x40] ∨ name = [0x2a] then
      if s.args.isEmpty then none else some ([0x20].intercalate s.args)
    else if name = [0x2d] ∨ name = [0x21] then some []
    else s.vars.get? name

def counts (colon : Bool) (value : Option Bytes) : Bool :=
  match value with
  | none => false
  | some b => !(colon && b.isEmpty)

def maxDepth : Nat := 4000

/-- Status of a command that is not found, and of one that cannot be run. -/
def notFoundStatus : Nat := 127
def notRunnableStatus : Nat := 126
def refusedStatus : Nat := 2

def signalStatus (n : Nat) : Nat := 128 + n

def builtins : List Bytes :=
  [":", ".", "[", "break", "cd", "continue", "eval", "exec", "exit", "export", "read", "return",
    "set", "shift", "unset"].map ofText

def leadingDir (s : State) (p : Path) : Path :=
  let full := if p.isAbsolute then p else s.pwd.join p
  let names := full.components.foldl (fun (acc : List Bytes) c => match c with
    | .name n => n :: acc
    | .up => acc.tail
    | _ => acc) []
  Location.path names

def changeDir (args : List Bytes) : Running Nat := do
  let s ← get
  let p : Path := ⟨(args.head?.orElse fun _ => s.vars.get? (ofText "HOME")).getD []⟩
  match s.volume.stat s.cwd p with
  | .ok (l, .dir) =>
    let pwd := leadingDir s p
    modify fun s => { s with
      cwd := l, pwd
      vars := (s.vars.set (ofText "OLDPWD") s.pwd.bytes).set (ofText "PWD") pwd.bytes
      exported := ofText "OLDPWD" :: ofText "PWD" :: s.exported }
    return 0
  | _ => return refusedStatus

def exportVar (arg : Bytes) : Running Unit := do
  let name := arg.takeWhile (· ≠ 0x3d)
  if name.length < arg.length then setVar name (arg.drop (name.length + 1))
  modify fun s => { s with exported := name :: s.exported }

def readLine (names : List Bytes) : Running Nat := do
  let s ← get
  let line := s.input.takeWhile (· ≠ Bytes.newline)
  modify fun s => { s with input := s.input.drop (line.length + 1) }
  let words := (fieldsOf (splitValue line)).map unmark
  for (name, i) in names.zipIdx do
    let isLast := i + 1 = names.length
    setVar name (if isLast then [0x20].intercalate (words.drop i) else words[i]?.getD [])
  return if s.input.isEmpty then 1 else 0

/-- The builtin commands that need nothing but the state. -/
def builtin (name : Bytes) (args : List Bytes) : Running Nat := do
  if name = ofText "cd" then changeDir args
  else if name = ofText "exit" ∨ name = ofText "return" then
    match args with
    | [] => throw (.exit (← get).status)
    | a :: _ => throw (.exit (((natural? a).map (· % 256)).getD refusedStatus))
  else if name = ofText "[" then
    if args.getLast? = some (ofText "]") then test args.dropLast else return refusedStatus
  else if name = ofText "export" then
    args.forM exportVar
    return 0
  else if name = ofText "unset" then
    args.forM fun a => modify fun s => { s with vars := s.vars.remove a }
    return 0
  else if name = ofText "shift" then
    let n := (args.head?.bind natural?).getD 1
    if (← get).args.length < n then throw (.exit refusedStatus)
    modify fun s => { s with args := s.args.drop n }
    return 0
  else if name = ofText "set" then
    match args with
    | [] => return 0
    | a :: rest =>
      if a = ofText "-e" then modify fun s => { s with strict := true }
      else if a = ofText "+e" then modify fun s => { s with strict := false }
      else if a = ofText "--" then modify fun s => { s with args := rest }
      else if a.head? ≠ some 0x2d then modify fun s => { s with args := args }
      return 0
  else if name = ofText "read" then readLine args
  else return 0

/-- Points a descriptor somewhere else. -/
def redirect (fd : Nat) (kind : RedirectKind) (target : Bytes) : Running Bool := do
  let s ← get
  let point (sink : Sink) : Running Bool := do
    modify fun s => { s with sinks := (fd, sink) :: s.sinks.filter (·.1 ≠ fd) }
    return true
  match kind with
  | .duplicate =>
    match (natural? target).bind fun n => s.sinks.lookup n with
    | some sink => point sink
    | none => return target = [0x2d]
  | .read =>
    match s.volume.readFile s.cwd ⟨target⟩ with
    | .ok b =>
      modify fun s => { s with input := b }
      return true
    | .error _ => return false
  | .write | .append =>
    match s.volume.openFile s.cwd ⟨target⟩ Volume.plainMode (kind == .append) with
    | .ok (l, v) =>
      if l = Program.nullDevice then point .nowhere
      else
        modify fun s => { s with volume := v }
        point (.file l)
    | .error _ => return false

/-- Goes on after the end of a child that a signal has ended. -/
def inShell (isChild : Bool) (a : Running Nat) : Running Nat :=
  tryCatch a fun
    | .signal n => if isChild then return signalStatus n else throw (.signal n)
    | .exit n => throw (.exit n)

/-- Ends a strict script at a command that has failed. -/
def endIfStrict (isCondition : Bool) : Running Unit := do
  let s ← get
  if s.strict && s.status ≠ 0 && !isCondition then throw (.exit s.status)

mutual

/-- The frags of a part. -/
def expandPart : Nat → Part → Running (List Frag)
  | 0, _ => throw (.exit refusedStatus)
  | fuel + 1, part => do
    match part with
    | .literal b quoted => return [.text b quoted]
    | .output script quoted =>
      let before := (← get).status
      let text ← capturing (run fuel false script)
      modify fun s => { s with inner := s.status, status := before }
      return valueFrags quoted (text.reverse.dropWhile (· = Bytes.newline)).reverse
    | .parameter name change word quoted =>
      let s ← get
      let value := parameter? s name
      let show_ (v : Option Bytes) : List Frag :=
        if name = [0x40] ∨ (name = [0x2a] ∧ quoted = false) then argumentFrags quoted s.args
        else valueFrags quoted (v.getD [])
      match change with
      | .keep => return show_ value
      | .length => return valueFrags quoted (decimal (value.getD []).length)
      | .useDefault colon =>
        if counts colon value then return show_ value else expandParts fuel word
      | .assignDefault colon =>
        if counts colon value then return show_ value
        else
          let v ← expandFlat fuel word
          setVar name v
          return valueFrags quoted v
      | .useOther colon =>
        if counts colon value then expandParts fuel word else return valueFrags quoted []
      | .require colon =>
        if counts colon value then return show_ value else throw (.exit refusedStatus)
      | .dropStart longest =>
        return valueFrags quoted (dropStart longest (← expandPattern fuel word) (value.getD []))
      | .dropEnd longest =>
        return valueFrags quoted (dropEnd longest (← expandPattern fuel word) (value.getD []))

def expandParts : Nat → Word → Running (List Frag)
  | 0, _ => throw (.exit refusedStatus)
  | _, [] => return []
  | fuel + 1, p :: rest => do return (← expandPart fuel p) ++ (← expandParts fuel rest)

/-- A word as one text, not cut into fields. -/
def expandFlat : Nat → Word → Running Bytes
  | 0, _ => throw (.exit refusedStatus)
  | fuel + 1, w => do
    return (← expandParts fuel w).flatMap fun
      | .text b _ => b
      | .cut => [0x20]

def expandPattern : Nat → Word → Running (List Atom)
  | 0, _ => throw (.exit refusedStatus)
  | fuel + 1, w => do
    return pattern ((← expandParts fuel w).flatMap fun
      | .cut => [(0x20, true)]
      | f => f.marked)

def expandWords : Nat → List Word → Running (List Bytes)
  | 0, _ => throw (.exit refusedStatus)
  | _, [] => return []
  | fuel + 1, w :: rest => do
    let fields := fieldsOf (← expandParts fuel w)
    let paths ← look fun v cwd => fields.flatMap (glob v cwd)
    return paths ++ (← expandWords fuel rest)

def redirectAll : Nat → List Redirect → Running Bool
  | 0, _ => throw (.exit refusedStatus)
  | _, [] => return true
  | fuel + 1, .mk fd kind target :: rest => do
    if ← redirect fd kind (← expandFlat fuel target) then redirectAll fuel rest else return false

def assignAll : Nat → List (Bytes × Word) → Running Unit
  | 0, _ => throw (.exit refusedStatus)
  | _, [] => return ()
  | fuel + 1, (name, word) :: rest => do
    setVar name (← expandFlat fuel word)
    assignAll fuel rest

/-- Runs a script in a shell of its own, with the exported variables. A signal ends both. -/
def runApart : Nat → Bytes → List Bytes → Bytes → Running Nat
  | 0, _, _, _ => throw (.exit refusedStatus)
  | fuel + 1, name, args, text => do
    let outer ← get
    let env := environ outer
    let inner := { outer with
      vars := env, exported := env.pairs.map (·.1), name, args, status := 0, strict := false }
    let body : Running Unit := match parse text with
      | some script => run fuel false script
      | none => throw (.exit refusedStatus)
    let (result, left) := (body.run).run inner
    set { outer with volume := left.volume, captured := left.captured }
    match result with
    | .ok () => return left.status
    | .error (.exit n) => return n
    | .error (.signal n) => throw (.signal n)

/-- A shell that is started as a program: it reads a file, or a text that is handed to it. -/
def runShell : Nat → List Bytes → Running Nat
  | 0, _ => throw (.exit refusedStatus)
  | fuel + 1, args => do
    match args with
    | [] => runApart fuel (ofText "sh") [] (← get).input
    | [0x2d, 0x63] :: text :: rest =>
      runApart fuel (rest.headD (ofText "sh")) rest.tail text
    | file :: rest =>
      match ← fileText ⟨file⟩ with
      | some text => runApart fuel file rest text
      | none => return refusedStatus

/-- Finds a program on the search path and runs it; a file of no known format is a script. -/
def launch : Nat → Bool → Bytes → List Bytes → Running Nat
  | 0, _, _, _ => throw (.exit refusedStatus)
  | fuel + 1, isChild, name, args => do
    let s ← get
    match Program.find s.volume s.cwd s.vars name args with
    | .error (.system .notExecutable) =>
      match (Program.places s.vars name).find? fun p => s.volume.leadsToProgram s.cwd ⟨p⟩ with
      | some p => inShell isChild (runShell fuel (p :: args))
      | none => return notRunnableStatus
    | .error e => return if e = .system .noEntry then notFoundStatus else notRunnableStatus
    | .ok image =>
      if image.native = ofText "sh" then inShell isChild (runShell fuel image.arguments)
      else match utility? image.native with
        | some u => u image.arguments
        | none => return notFoundStatus

/-- Runs a command by its name: a builtin, or a program. -/
def invoke : Nat → Bytes → List Bytes → Running Nat
  | 0, _, _ => throw (.exit refusedStatus)
  | fuel + 1, name, args => do
    if name = ofText "eval" then
      match parse ([0x20].intercalate args) with
      | some script =>
        run fuel false script
        return (← get).status
      | none => throw (.exit refusedStatus)
    else if name = ofText "." then
      match ← fileText ⟨args.headD []⟩ with
      | some text =>
        match parse text with
        | some script =>
          run fuel false script
          return (← get).status
        | none => throw (.exit refusedStatus)
      | none => throw (.exit refusedStatus)
    else if name = ofText "exec" then
      match args with
      | [] => return 0
      | name :: rest => throw (.exit (← launch fuel false name rest))
    else if name ∈ builtins then builtin name args
    else if slash ∉ name ∧
        name ∈ ["echo", "printf", "pwd", "test", "true", "false", "kill"].map ofText then
      ((utility? name).getD fun _ => return 0) args
    else launch fuel true name args

/-- Runs the body of a loop for each value. -/
def forEach : Nat → Bytes → Script → List Bytes → Running Unit
  | 0, _, _, _ => throw (.exit refusedStatus)
  | _, _, _, [] => return ()
  | fuel + 1, name, body, v :: rest => do
    setVar name v
    run fuel false body
    forEach fuel name body rest

def matchesAny : Nat → Bytes → List Word → Running Bool
  | 0, _, _ => throw (.exit refusedStatus)
  | _, _, [] => return false
  | fuel + 1, subject, w :: rest => do
    if matchesAll (← expandPattern fuel w) subject then return true
    else matchesAny fuel subject rest

def firstArm : Nat → Bytes → List (List Word × Script) → Running Unit
  | 0, _, _ => throw (.exit refusedStatus)
  | _, _, [] => setStatus 0
  | fuel + 1, subject, (patterns, body) :: rest => do
    if ← matchesAny fuel subject patterns then run fuel false body else firstArm fuel subject rest

/-- Runs a script. In a condition a failing command does not end it. -/
def run : Nat → Bool → Script → Running Unit
  | 0, _, _ => throw (.exit refusedStatus)
  | fuel + 1, isCondition, script => do
    match script with
    | .nothing => return ()
    | .seq a b =>
      run fuel isCondition a
      run fuel isCondition b
    | .both a b =>
      run fuel true a
      if (← get).status = 0 then run fuel isCondition b
    | .either a b =>
      run fuel true a
      if (← get).status ≠ 0 then run fuel isCondition b
    | .negate a =>
      run fuel true a
      setStatus (if (← get).status = 0 then 1 else 0)
    | .pipe a b =>
      let text ← capturing (run fuel isCondition a)
      apart do
        modify fun s => { s with input := text }
        run fuel isCondition b
      endIfStrict isCondition
    | .forEach name words body =>
      let values ← match words with
        | some words => expandWords fuel words
        | none => return (← forEach fuel name body (← get).args)
      setStatus 0
      forEach fuel name body values
    | .select subject arms => firstArm fuel (← expandFlat fuel subject) arms
    | .branch condition yes no =>
      run fuel true condition
      if (← get).status = 0 then run fuel isCondition yes
      else match no with
        | .nothing => setStatus 0
        | _ => run fuel isCondition no
    | .loop goOn condition body =>
      run fuel true condition
      if ((← get).status == 0) == goOn then
        run fuel isCondition body
        run fuel isCondition script
      else setStatus 0
    | .group isApart body redirects =>
      let before ← get
      let go : Running Unit := do
        if ← redirectAll fuel redirects then run fuel isCondition body else setStatus refusedStatus
      if isApart then
        apart go
        endIfStrict isCondition
      else
        go
        modify fun s => { s with
          sinks := before.sinks
          input := if redirects.isEmpty then s.input else before.input }
    | .simple assignments words redirects =>
      modify fun s => { s with inner := 0 }
      let fields ← expandWords fuel words
      let before ← get
      match fields with
      | [] =>
        let opened ← redirectAll fuel redirects
        modify fun s => { s with sinks := before.sinks, input := before.input }
        assignAll fuel assignments
        let s ← get
        setStatus (if opened then s.inner else refusedStatus)
      | name :: args =>
        let reads := redirects.any fun | .mk _ kind _ => kind == .read
        let status ← if ← redirectAll fuel redirects then do
            assignAll fuel assignments
            modify fun s => { s with exported := assignments.map (·.1) ++ s.exported }
            let status ← invoke fuel name args
            if !assignments.isEmpty then
              modify fun s => { s with vars := before.vars, exported := before.exported }
            pure status
          else pure refusedStatus
        if name ≠ ofText "exec" ∨ ¬ args.isEmpty then
          modify fun s => { s with
            sinks := before.sinks
            input := if reads then before.input else s.input }
        setStatus status
      endIfStrict isCondition

end

end PinnedDeps.Shell
