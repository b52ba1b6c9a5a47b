import PinnedDeps.Bytes
import PinnedDeps.Pairs

/-!
Environment variables: names and values are byte strings, the pairs are kept in strictly increasing
order of their names. `get?` is the view; each operation has its equation through it, and two
environments with the same view are equal.
-/
namespace PinnedDeps

structure Environ where
  pairs : List (Bytes × Bytes)
  sorted : pairs.Pairwise (fun a b => a.1 < b.1)

namespace Environ

theorem ext_pairs {a b : Environ} (h : a.pairs = b.pairs) : a = b := by
  cases a; cases b; cases h; rfl

instance : DecidableEq Environ := fun a b =>
  if h : a.pairs = b.pairs then isTrue (ext_pairs h) else isFalse fun e => h (congrArg pairs e)

def empty : Environ := ⟨[], .nil⟩

def insertPair (k v : Bytes) : List (Bytes × Bytes) → List (Bytes × Bytes)
  | [] => [(k, v)]
  | e :: rest =>
    if k < e.1 then (k, v) :: e :: rest
    else if e.1 < k then e :: insertPair k v rest
    else (k, v) :: rest

theorem mem_insertPair {k v : Bytes} {e : Bytes × Bytes} {l : List (Bytes × Bytes)}
    (h : e ∈ insertPair k v l) : e = (k, v) ∨ e ∈ l := by
  induction l with
  | nil => simpa [insertPair] using h
  | cons a rest ih =>
    unfold insertPair at h
    split at h
    · simpa using h
    · split at h
      · rcases List.mem_cons.1 h with h | h
        · simp [h]
        · rcases ih h with h | h <;> simp [h]
      · rcases List.mem_cons.1 h with h | h <;> simp [h]

theorem insertPair_sorted (k v : Bytes) {l : List (Bytes × Bytes)}
    (h : l.Pairwise (fun a b => a.1 < b.1)) :
    (insertPair k v l).Pairwise (fun a b => a.1 < b.1) := by
  induction l with
  | nil => simp [insertPair]
  | cons a rest ih =>
    obtain ⟨ha, hr⟩ := List.pairwise_cons.1 h
    unfold insertPair
    split
    · rename_i lt
      refine List.pairwise_cons.2 ⟨fun b hb => ?_, h⟩
      rcases List.mem_cons.1 hb with rfl | hb
      · exact lt
      · exact List.lt_trans lt (ha b hb)
    · split
      · rename_i gt
        refine List.pairwise_cons.2 ⟨fun b hb => ?_, ih hr⟩
        rcases mem_insertPair hb with rfl | hb
        · exact gt
        · exact ha b hb
      · rename_i nlt ngt
        have same : k = a.1 := List.le_antisymm ngt nlt
        subst same
        exact List.pairwise_cons.2 ⟨ha, hr⟩

def set (env : Environ) (k v : Bytes) : Environ :=
  ⟨insertPair k v env.pairs, insertPair_sorted k v env.sorted⟩

def remove (env : Environ) (k : Bytes) : Environ :=
  ⟨env.pairs.filter (fun e => e.1 ≠ k), env.sorted.filter _⟩

def get? (env : Environ) (k : Bytes) : Option Bytes := env.pairs.lookup k

/-- Unsets a variable and hands out the value that it had. -/
def take (env : Environ) (k : Bytes) : Option Bytes × Environ := (env.get? k, env.remove k)

/-- The value when it is set and well-formed text. -/
def text? (env : Environ) (k : Bytes) : Option String := (env.get? k).bind Bytes.toText?

def textD (env : Environ) (k : Bytes) (default : String) : String := (env.text? k).getD default

def contains (env : Environ) (k : Bytes) : Bool := (env.get? k).isSome

def size (env : Environ) : Nat := env.pairs.length

/-- Puts a directory in front of a list of directories; an unset list becomes that directory. -/
def prepend (env : Environ) (k dir sep : Bytes) : Environ :=
  env.set k (match env.get? k with
    | none => dir
    | some old => dir ++ sep ++ old)

/-- The pairs that are new here or have another value in `base`. -/
def changedFrom (env base : Environ) : List (Bytes × Bytes) :=
  env.pairs.filter fun e => base.get? e.1 ≠ some e.2

/-- Sets the given pairs, one after another. -/
def overlay (env : Environ) (ps : List (Bytes × Bytes)) : Environ :=
  ps.foldl (fun env p => env.set p.1 p.2) env

/-- Later pairs replace earlier ones of the same name. -/
def ofPairs (ps : List (Bytes × Bytes)) : Environ := empty.overlay ps

theorem lookup_insertPair (k v j : Bytes) (l : List (Bytes × Bytes)) :
    (insertPair k v l).lookup j = if j = k then some v else l.lookup j := by
  induction l with
  | nil => rw [insertPair, Pairs.lookup_cons_if]
  | cons a rest ih =>
    unfold insertPair
    split
    · rw [Pairs.lookup_cons_if]
    · split
      · rename_i gt
        have ne : a.1 ≠ k := fun eq => List.lt_irrefl k (by rw [eq] at gt; exact gt)
        by_cases e : j = a.1
        · simp [Pairs.lookup_cons_if, e, ne]
        · simp [Pairs.lookup_cons_if, e, ih]
      · rename_i nlt ngt
        have same : k = a.1 := List.le_antisymm ngt nlt
        simp only [Pairs.lookup_cons_if, ← same]
        split <;> rfl

theorem lookup_eq_some_iff_mem {k v : Bytes} {l : List (Bytes × Bytes)}
    (h : l.Pairwise (fun a b => a.1 < b.1)) : l.lookup k = some v ↔ (k, v) ∈ l := by
  induction l with
  | nil => simp
  | cons a rest ih =>
    obtain ⟨ha, hr⟩ := List.pairwise_cons.1 h
    rw [Pairs.lookup_cons_if, List.mem_cons]
    by_cases e : k = a.1
    · subst e
      have out : (a.1, v) ∉ rest := fun mem => List.lt_irrefl a.1 (ha (a.1, v) mem)
      simp [out, Prod.ext_iff, eq_comm]
    · have ne : (k, v) ≠ a := fun eq => e (by rw [← eq])
      simp [e, ne, ih hr]

theorem get?_set (env : Environ) (k v j : Bytes) :
    (env.set k v).get? j = if j = k then some v else env.get? j :=
  lookup_insertPair k v j env.pairs

theorem get?_remove (env : Environ) (k j : Bytes) :
    (env.remove k).get? j = if j = k then none else env.get? j :=
  Pairs.lookup_filter_ne k j env.pairs

theorem get?_prepend (env : Environ) (k dir sep j : Bytes) :
    (env.prepend k dir sep).get? j =
      if j = k then some (match env.get? k with
        | none => dir
        | some old => dir ++ sep ++ old)
      else env.get? j := get?_set ..

@[simp] theorem get?_empty (k : Bytes) : empty.get? k = none := rfl

theorem get?_eq_some_iff {env : Environ} {k v : Bytes} :
    env.get? k = some v ↔ (k, v) ∈ env.pairs :=
  lookup_eq_some_iff_mem env.sorted

end Environ
end PinnedDeps
