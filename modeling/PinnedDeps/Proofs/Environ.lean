import PinnedDeps.Environ

/-!
Environments and the changes between them. An environment is what its variables hold, so the pairs
that are new or changed, set on top of the older environment, give back the newer one, provided that
no variable has been taken away. Fewer pairs do not.
-/
namespace PinnedDeps

open Bytes (ofText)

namespace Environ

variable {a b base env : Environ} {k v : Bytes} {ps : List (Bytes × Bytes)}

/-- Two sorted lists of pairs in which the same pairs stand are the same. -/
theorem ext_get? (h : ∀ k, a.get? k = b.get? k) : a = b := by
  refine ext_pairs (List.Perm.eq_of_pairwise (fun x y _ _ lt gt => ?_) a.sorted b.sorted ?_)
  · exact (List.lt_irrefl x.1 (List.lt_trans lt gt)).elim
  · have distinct : ∀ e : Environ, e.pairs.Nodup := fun e =>
      e.sorted.imp fun {x y} lt (eq : x = y) => List.lt_irrefl y.1 (by rwa [eq] at lt)
    refine (List.perm_ext_iff_of_nodup (distinct a) (distinct b)).2 fun ⟨k, v⟩ => ?_
    rw [← get?_eq_some_iff, ← get?_eq_some_iff, h]

/-- Pairs with distinct names show through what they are set on. -/
theorem get?_overlay (env : Environ) (distinct : (ps.map Prod.fst).Nodup) (k : Bytes) :
    (env.overlay ps).get? k = (ps.lookup k).or (env.get? k) := by
  refine (Pairs.foldl_lookup get? _ (fun v _ => some v) (fun env e k => get?_set env e.1 e.2 k) distinct
    env k).trans ?_
  cases ps.lookup k <;> rfl

theorem sorted_changedFrom (env base : Environ) :
    (env.changedFrom base).Pairwise (fun x y => x.1 < y.1) :=
  env.sorted.filter _

theorem distinct_of_sorted (sorted : ps.Pairwise fun x y => x.1 < y.1) : (ps.map Prod.fst).Nodup :=
  List.pairwise_map.2 <| sorted.imp fun {x y} lt (same : x.1 = y.1) => List.lt_irrefl y.1 (same ▸ lt)

/-- Pairs that are in order stand in an environment as they are. -/
theorem pairs_ofPairs (sorted : ps.Pairwise fun x y => x.1 < y.1) : (ofPairs ps).pairs = ps := by
  have same : ofPairs ps = ⟨ps, sorted⟩ := by
    refine ext_get? fun k => ?_
    unfold ofPairs
    rw [get?_overlay empty (distinct_of_sorted sorted), get?_empty, Option.or_none]
    rfl
  rw [same]

theorem distinct_changedFrom (env base : Environ) : ((env.changedFrom base).map Prod.fst).Nodup :=
  distinct_of_sorted (sorted_changedFrom env base)

theorem lookup_changedFrom :
    (env.changedFrom base).lookup k = some v ↔ env.get? k = some v ∧ base.get? k ≠ some v := by
  rw [lookup_eq_some_iff_mem (sorted_changedFrom env base), get?_eq_some_iff]
  unfold changedFrom
  simp

/-- What is unset in the newer environment is left as it was. -/
theorem get?_overlay_changedFrom (env base : Environ) (k : Bytes) :
    (base.overlay (env.changedFrom base)).get? k = (env.get? k).or (base.get? k) := by
  rw [get?_overlay base (distinct_changedFrom env base)]
  cases told : (env.changedFrom base).lookup k with
  | some v => rw [(lookup_changedFrom.1 told).1]
  | none =>
    cases held : env.get? k with
    | none => rfl
    | some v =>
      by_cases same : base.get? k = some v
      · simp [same]
      · rw [lookup_changedFrom.2 ⟨held, same⟩] at told
        cases told

theorem overlay_changedFrom (kept : ∀ k, (base.get? k).isSome → (env.get? k).isSome) :
    base.overlay (env.changedFrom base) = env := by
  refine ext_get? fun k => ?_
  rw [get?_overlay_changedFrom]
  cases held : env.get? k with
  | some v => rfl
  | none =>
    have unset := mt (kept k)
    simpa [held] using unset

/-- The value of the last pair that names a variable. -/
def lastOf (k : Bytes) (ps : List (Bytes × Bytes)) : Option Bytes :=
  (ps.filter fun p => p.1 = k).getLast?.map Prod.snd

theorem lastOf_cons (p : Bytes × Bytes) (ps : List (Bytes × Bytes)) (k : Bytes) :
    lastOf k (p :: ps) = (lastOf k ps).or (if k = p.1 then some p.2 else none) := by
  unfold lastOf
  by_cases same : p.1 = k
  · subst same
    rw [List.filter_cons_of_pos (by simp), List.getLast?_cons, if_pos rfl]
    cases (ps.filter fun q => q.1 = p.1).getLast? <;> rfl
  · rw [List.filter_cons_of_neg (by simpa using same), if_neg fun eq => same eq.symm, Option.or_none]

theorem mem_of_lastOf (h : lastOf k ps = some v) : (k, v) ∈ ps := by
  obtain ⟨p, last, rfl⟩ := Option.map_eq_some_iff.1 h
  obtain ⟨listed, same⟩ := List.mem_filter.1 (List.mem_of_getLast? last)
  exact of_decide_eq_true same ▸ listed

/-- Of pairs that are set one after another, the last one of a name counts. -/
theorem get?_overlay_last (env : Environ) (ps : List (Bytes × Bytes)) (k : Bytes) :
    (env.overlay ps).get? k = (lastOf k ps).or (env.get? k) := by
  induction ps generalizing env with
  | nil => rfl
  | cons p ps ih =>
    have after : (env.overlay (p :: ps)).get? k = ((env.set p.1 p.2).overlay ps).get? k := rfl
    rw [after, ih, get?_set, lastOf_cons, Option.or_assoc]
    split <;> rfl

theorem get?_ofPairs (ps : List (Bytes × Bytes)) (k : Bytes) : (ofPairs ps).get? k = lastOf k ps := by
  unfold ofPairs
  rw [get?_overlay_last, get?_empty, Option.or_none]

/-- Pairs that lead to the same environment are at least those that differ. -/
theorem changedFrom_subset (same : base.overlay ps = base.overlay (env.changedFrom base)) :
    env.changedFrom base ⊆ ps := by
  rintro ⟨k, v⟩ listed
  obtain ⟨held, other⟩ := lookup_changedFrom.1 (Pairs.lookup_of_mem (distinct_changedFrom env base) listed)
  have after : (base.overlay ps).get? k = some v := by
    rw [same, get?_overlay_changedFrom, held]
    rfl
  rw [get?_overlay_last, Option.or_eq_some_iff] at after
  rcases after with last | ⟨-, before⟩
  · exact mem_of_lastOf last
  · exact absurd before other

/-- Nothing differs exactly if all that is set here is set to the same in the other environment. -/
theorem changedFrom_eq_nil_iff :
    env.changedFrom base = [] ↔ ∀ k v, env.get? k = some v → base.get? k = some v := by
  unfold changedFrom
  rw [List.filter_eq_nil_iff]
  simp only [decide_not, Bool.not_eq_true', decide_eq_false_iff_not, Decidable.not_not, Prod.forall,
    get?_eq_some_iff]

/-- The pairs in which an environment differs from another one lead from that one to it, but for the
variables that it does not have. They are in order, no name comes twice, and none of them can be left
out. Two environments are equal exactly if neither differs from the other. -/
theorem changedFrom_exact (env base : Environ) :
    let diff := env.changedFrom base
    (∀ k, (base.overlay diff).get? k = if env.contains k then env.get? k else base.get? k) ∧
    (diff.map Prod.fst).Nodup ∧ diff.Pairwise (fun x y => x.1 < y.1) ∧
    (∀ e ∈ diff, base.overlay (diff.erase e) ≠ base.overlay diff) ∧
    (∀ ps, base.overlay ps = base.overlay diff → diff ⊆ ps) ∧
    (env = base ↔ diff = [] ∧ base.changedFrom env = []) := by
  intro diff
  have distinct : (diff.map Prod.fst).Nodup := distinct_changedFrom env base
  refine ⟨fun k => ?_, distinct, sorted_changedFrom env base, fun e listed same => ?_,
    fun ps same => changedFrom_subset same, ?_⟩
  · rw [get?_overlay_changedFrom]
    unfold contains
    cases env.get? k <;> rfl
  · have once : diff.Nodup :=
      List.Pairwise.of_map Prod.fst (fun _ _ other eq => other (congrArg Prod.fst eq)) distinct
    exact (once.mem_erase_iff.1 (changedFrom_subset same listed)).1 rfl
  · rw [changedFrom_eq_nil_iff, changedFrom_eq_nil_iff]
    constructor
    · rintro rfl
      exact ⟨fun _ _ held => held, fun _ _ held => held⟩
    · rintro ⟨there, back⟩
      exact ext_get? fun k => Option.ext fun v => ⟨there k v, back k v⟩

section Sample

def older : Environ := .ofPairs [(ofText "A", ofText "1"), (ofText "B", ofText "2"), (ofText "D", ofText "4")]

/-- Changes one variable of the older environment, adds one and takes one away. -/
def newer : Environ := ((older.set (ofText "B") []).set (ofText "C") [0xff]).remove (ofText "D")

theorem changedFrom_exact_newer :
    let diff := newer.changedFrom older
    (ofText "B", []) ∈ diff ∧ older.overlay (diff.erase (ofText "B", [])) ≠ older.overlay diff ∧
      older.overlay [(ofText "C", [0xff]), (ofText "B", [])] = older.overlay diff ∧
      diff ⊆ [(ofText "C", [0xff]), (ofText "B", [])] ∧
      (older.overlay diff).get? (ofText "D") = some (ofText "4") ∧ newer ≠ older := by
  have listed : (ofText "B", []) ∈ newer.changedFrom older := by decide +kernel
  have same : older.overlay [(ofText "C", [0xff]), (ofText "B", [])] =
      older.overlay (newer.changedFrom older) := by decide +kernel
  obtain ⟨value, -, -, least, needed, equal⟩ := changedFrom_exact newer older
  refine ⟨listed, least _ listed, same, needed _ same, ?_, fun eq => ?_⟩
  · exact (value (ofText "D")).trans (by decide +kernel)
  · rw [(equal.1 eq).1] at listed
    cases listed

end Sample

end Environ
end PinnedDeps
