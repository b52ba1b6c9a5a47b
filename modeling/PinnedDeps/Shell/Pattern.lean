import PinnedDeps.Volume.Operation

/-!
Shell patterns, and the paths that they match. A quoted byte stands for itself, a pattern that matches
nothing stands for itself, and a name with a leading dot is matched only by one.
-/
namespace PinnedDeps.Shell

inductive Atom where
  | byte (b : UInt8)
  | one
  | many
  | set (negated : Bool) (ranges : List (UInt8 × UInt8))
  deriving DecidableEq, Repr

def tails : Bytes → List Bytes
  | [] => [[]]
  | b :: rest => (b :: rest) :: tails rest

def matchesAll : List Atom → Bytes → Bool
  | [], s => s.isEmpty
  | .many :: p, s => (tails s).any (matchesAll p)
  | .one :: p, s => match s with
    | _ :: s => matchesAll p s
    | [] => false
  | .byte b :: p, s => match s with
    | c :: s => b == c && matchesAll p s
    | [] => false
  | .set negated ranges :: p, s => match s with
    | c :: s => (ranges.any (fun r => r.1 ≤ c && c ≤ r.2) != negated) && matchesAll p s
    | [] => false

/-- The ranges of a bracket up to its end, and how many bytes they take. -/
def ranges : Nat → List (UInt8 × Bool) → Option (List (UInt8 × UInt8) × List (UInt8 × Bool))
  | 0, _ => none
  | fuel + 1, p =>
    match p with
    | (0x5d, false) :: rest => some ([], rest)
    | (a, _) :: (0x2d, false) :: (b, q) :: rest =>
      if b = 0x5d ∧ q = false then
        (ranges fuel ((b, q) :: rest)).map fun x => ((a, a) :: (0x2d, 0x2d) :: x.1, x.2)
      else (ranges fuel rest).map fun x => ((a, b) :: x.1, x.2)
    | (a, _) :: rest => (ranges fuel rest).map fun x => ((a, a) :: x.1, x.2)
    | [] => none

/-- A bracket after its opening byte. A closing byte that comes first belongs to the set. -/
def bracket (p : List (UInt8 × Bool)) : Option (Atom × List (UInt8 × Bool)) :=
  let (negated, p) := match p with
    | (0x21, false) :: rest => (true, rest)
    | _ => (false, p)
  match p with
  | (0x5d, false) :: rest =>
    (ranges (rest.length + 1) rest).map fun x => (.set negated ((0x5d, 0x5d) :: x.1), x.2)
  | _ => (ranges (p.length + 1) p).map fun x => (.set negated x.1, x.2)

/-- Reads a pattern from bytes that carry their quoting. -/
def atoms : Nat → List (UInt8 × Bool) → List Atom
  | 0, _ => []
  | _, [] => []
  | fuel + 1, (b, quoted) :: rest =>
    if quoted then .byte b :: atoms fuel rest
    else if b = 0x2a then .many :: atoms fuel rest
    else if b = 0x3f then .one :: atoms fuel rest
    else if b = 0x5b then
      match bracket rest with
      | some (atom, rest) => atom :: atoms fuel rest
      | none => .byte b :: atoms fuel rest
    else .byte b :: atoms fuel rest

def pattern (p : List (UInt8 × Bool)) : List Atom := atoms p.length p

/-- Drops the shortest or the longest start that matches. -/
def dropStart (longest : Bool) (p : List Atom) (s : Bytes) : Bytes :=
  let cuts := (List.range (s.length + 1)).filter fun n => matchesAll p (s.take n)
  match if longest then cuts.getLast? else cuts.head? with
  | some n => s.drop n
  | none => s

/-- Drops the shortest or the longest end that matches. -/
def dropEnd (longest : Bool) (p : List Atom) (s : Bytes) : Bytes :=
  let cuts := (List.range (s.length + 1)).filter fun n => matchesAll p (s.drop n)
  match if longest then cuts.head? else cuts.getLast? with
  | some n => s.take n
  | none => s

open Bytes (slash)

/-- Bytes with their quoting. -/
abbrev Marked := List (UInt8 × Bool)

def unmark (m : Marked) : Bytes := m.map (·.1)

def isWild (m : Marked) : Bool := (pattern m).any fun
  | .byte _ => false
  | _ => true

def matchesName (m : Marked) (name : Bytes) : Bool :=
  matchesAll (pattern m) name &&
    (name.head? != some Bytes.dot || (unmark m).head? == some Bytes.dot)

/-- The names in the directory that a path leads to, in their order. -/
def namesAt (v : Volume) (cwd : Location) (dir : Bytes) : List Bytes :=
  match v.stat cwd ⟨if dir = [] then [Bytes.dot] else dir⟩ with
  | .ok (l, .dir) => (v.names l).mergeSort fun a b => a ≤ b
  | _ => []

/-- Continues paths that end in a slash with the parts of a pattern. -/
def continuePaths (v : Volume) (cwd : Location) : Bytes → List Marked → List Bytes
  | path, [] => [path]
  | path, [m] =>
    if isWild m then ((namesAt v cwd path).filter (matchesName m)).map (path ++ ·)
    else if (v.entryAt cwd ⟨path ++ unmark m⟩).isOk then [path ++ unmark m] else []
  | path, m :: n :: rest =>
    let next (name : Bytes) : List Bytes :=
      continuePaths v cwd (path ++ name ++ [slash]) (n :: rest)
    if isWild m then ((namesAt v cwd path).filter (matchesName m)).flatMap next else next (unmark m)

def splitMarked (m : Marked) : List Marked :=
  m.splitOnP fun b => b.1 == slash

/-- The paths that a field stands for. -/
def glob (v : Volume) (cwd : Location) (m : Marked) : List Bytes :=
  if isWild m then
    match continuePaths v cwd [] (splitMarked m) with
    | [] => [unmark m]
    | found => found
  else [unmark m]

end PinnedDeps.Shell
