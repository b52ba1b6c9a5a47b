import PinnedDeps.Bytes
import PinnedDeps.Pairs

/-!
A tree of directories, files and symbolic links, kept as the entry at each location. `lookup` is the
view; every change has its equation through it. The root is always a directory.
-/
namespace PinnedDeps

/-- The names from an entry up to the root, innermost first: the tail is the parent. -/
abbrev Location := List Bytes

/-- `peers` is the number shared by the names of one file that has several. -/
structure File where
  bytes : Bytes
  mode : Nat
  peers : Option Nat
  deriving DecidableEq, Repr

inductive Entry where
  | dir
  | file (f : File)
  | link (target : Bytes)
  deriving DecidableEq, Repr

/-- Any of the three execute bits. -/
def File.isExecutable (f : File) : Bool := f.mode &&& 0o111 ≠ 0

structure Volume where
  entries : List (Location × Entry)
  deriving DecidableEq, Repr

namespace Volume

def empty : Volume := ⟨[]⟩

def lookup (v : Volume) : Location → Option Entry
  | [] => some .dir
  | n :: d => v.entries.lookup (n :: d)

def erase (v : Volume) (l : Location) : Volume := ⟨v.entries.filter (·.1 ≠ l)⟩

def put (v : Volume) (l : Location) (e : Entry) : Volume := ⟨(l, e) :: (v.erase l).entries⟩

def ofList (es : List (Location × Entry)) : Volume := es.foldl (fun v e => v.put e.1 e.2) empty

/-- The names that stand directly in a directory. -/
def names (v : Volume) (d : Location) : List Bytes :=
  v.entries.filterMap fun
    | (n :: parent, _) => if parent = d then some n else none
    | ([], _) => none

/-- `l` is `top` or lies below it. -/
def Below (l top : Location) : Prop := top <:+ l

instance (l top : Location) : Decidable (Below l top) := inferInstanceAs (Decidable (_ <:+ _))

/-- Where a location lands when the tree at `src` is moved to `dst`. -/
def carry (src dst l : Location) : Location :=
  if Below l src then l.take (l.length - src.length) ++ dst else l

/-- Moves the tree at `src` to `dst`, in place of what stood there. -/
def relocate (v : Volume) (src dst : Location) : Volume :=
  ⟨(v.erase dst).entries.map fun e => (carry src dst e.1, e.2)⟩

def samePeers (f : File) : Entry → Bool
  | .file g => f.peers.isSome && f.peers == g.peers
  | _ => false

/-- Changes the file at a location, under all of its names. -/
def adjust (v : Volume) (l : Location) (change : File → File) : Volume :=
  match v.lookup l with
  | some (.file f) =>
    ⟨v.entries.map fun e =>
      if e.1 = l ∨ samePeers f e.2 then (e.1, .file (change f)) else e⟩
  | _ => v

/-- A number that no file of the volume carries. -/
def freshPeers (v : Volume) : Nat :=
  v.entries.foldl (fun n e => match e.2 with
    | .file f => max n ((f.peers.map (· + 1)).getD 0)
    | _ => n) 0

/-- Gives the entry at `src` the further name `dst`. -/
def addName (v : Volume) (src dst : Location) : Volume :=
  match v.lookup src with
  | some (.file f) =>
    let shared := { f with peers := some (f.peers.getD v.freshPeers) }
    (v.put src (.file shared)).put dst (.file shared)
  | some e => v.put dst e
  | none => v

@[simp] theorem lookup_root (v : Volume) : v.lookup [] = some .dir := rfl

theorem lookup_erase (v : Volume) (l : Location) {j : Location} (h : j ≠ []) :
    (v.erase l).lookup j = if j = l then none else v.lookup j := by
  cases j with
  | nil => exact absurd rfl h
  | cons n d => exact Pairs.lookup_filter_ne l (n :: d) v.entries

theorem lookup_erase_ne (v : Volume) {l j : Location} (h : j ≠ l) :
    (v.erase l).lookup j = v.lookup j := by
  cases j with
  | nil => rfl
  | cons n d => simp [lookup_erase, h]

theorem lookup_put (v : Volume) (l : Location) (e : Entry) {j : Location} (h : j ≠ []) :
    (v.put l e).lookup j = if j = l then some e else v.lookup j := by
  cases j with
  | nil => exact absurd rfl h
  | cons n d =>
    show ((l, e) :: (v.erase l).entries).lookup (n :: d) = _
    rw [Pairs.lookup_cons_if]
    split
    · rfl
    · rename_i ne
      exact lookup_erase_ne v ne

theorem lookup_put_ne (v : Volume) {l j : Location} (e : Entry) (h : j ≠ l) :
    (v.put l e).lookup j = v.lookup j := by
  cases j with
  | nil => rfl
  | cons n d => simp [lookup_put, h]

end Volume
end PinnedDeps
