import Mathlib.Data.Finset.Card
import Mathlib.Data.Finset.Filter
import PinnedDeps.Proofs.Environ

/-!
Environments under edits. What a variable holds, and what its removals hand out, follows from the pairs
and the edits that name it and from no others, and the environment lists the variables that are set.
-/
namespace PinnedDeps

open Bytes (ofText)

namespace Environ

variable {ps : List (Bytes × Bytes)} {k v : Bytes}

/-- A change to one variable. -/
inductive Edit where
  | set (k v : Bytes)
  | remove (k : Bytes)
  | prepend (k dir sep : Bytes)

namespace Edit

def name : Edit → Bytes
  | set k _ | remove k | prepend k _ _ => k

/-- What an edit hands out, and the environment after it. -/
def apply (env : Environ) : Edit → Option Bytes × Environ
  | set k v => (none, env.set k v)
  | remove k => env.take k
  | prepend k dir sep => (none, env.prepend k dir sep)

/-- What an edit hands out, and what its variable holds after it, from what it held before. -/
def replay (held : Option Bytes) : Edit → Option Bytes × Option Bytes
  | set _ v => (none, some v)
  | remove _ => (held, none)
  | prepend _ dir sep => match held with
    | none => (none, some dir)
    | some old => (none, some (dir ++ sep ++ old))

/-- An edit does to the variable that it names what it does to it alone, and nothing to any other. -/
theorem get?_apply (env : Environ) (x : Edit) (k : Bytes) : (x.apply env).2.get? k =
    if k = x.name then (x.replay (env.get? k)).2 else env.get? k := by
  cases x with
  | set j v => exact get?_set env j v k
  | remove j => exact get?_remove env j k
  | prepend j dir sep =>
    refine (get?_prepend env j dir sep k).trans ?_
    by_cases same : k = j
    · subst same
      simp only [name, replay]
      cases env.get? k <;> rfl
    · rw [if_neg same]
      exact (if_neg same).symm

theorem handed_apply (env : Environ) (x : Edit) :
    (x.apply env).1 = (x.replay (env.get? x.name)).1 := by
  cases x with
  | set | remove => rfl
  | prepend j dir sep =>
    simp only [apply, name, replay]
    cases env.get? j <;> rfl

end Edit

/-- Goes through edits in their order, and lists what each of them hands out. -/
def goThrough {σ : Type} (step : σ → Edit → Option Bytes × σ) : σ → List Edit → List (Option Bytes) × σ
  | s, [] => ([], s)
  | s, x :: xs =>
    let rest := goThrough step (step s x).2 xs
    ((step s x).1 :: rest.1, rest.2)

/-- The edits that name a variable. -/
def naming (k : Bytes) (xs : List Edit) : List Edit := xs.filter fun x => x.name = k

/-- What the edits that name a variable hand out, of all that is handed out. -/
def handed (k : Bytes) (xs : List Edit) (outs : List (Option Bytes)) : List (Option Bytes) :=
  ((xs.zip outs).filter fun x => x.1.name = k).map Prod.snd

/-- What becomes of a variable if all that names other variables is left out. -/
def alone (ps : List (Bytes × Bytes)) (xs : List Edit) (k : Bytes) : List (Option Bytes) × Option Bytes :=
  goThrough Edit.replay (lastOf k ps) (naming k xs)

/-- Of the edits of an environment, each variable sees those that name it. -/
theorem goThrough_apply (env : Environ) (xs : List Edit) (k : Bytes) :
    let all := goThrough Edit.apply env xs
    let own := goThrough Edit.replay (env.get? k) (naming k xs)
    all.2.get? k = own.2 ∧ handed k xs all.1 = own.1 := by
  induction xs generalizing env with
  | nil => exact ⟨rfl, rfl⟩
  | cons x xs ih =>
    obtain ⟨value, outs⟩ := ih (x.apply env).2
    rw [Edit.get?_apply] at value outs
    unfold naming handed at *
    by_cases same : x.name = k
    · subst same
      rw [if_pos rfl] at value outs
      simp only [goThrough, List.zip_cons_cons, List.filter_cons, decide_true, if_true, List.map_cons]
      exact ⟨value, by rw [outs, Edit.handed_apply]⟩
    · rw [if_neg fun eq => same eq.symm] at value outs
      simp only [goThrough, List.zip_cons_cons, List.filter_cons, same, decide_false,
        Bool.false_eq_true, if_false]
      exact ⟨value, outs⟩

/-- A value that is set is text exactly if it is read as text. -/
theorem text?_eq_some_iff {env : Environ} {s : String} :
    env.text? k = some s ↔ env.get? k = some (ofText s) := by
  unfold text?
  rw [Option.bind_eq_some_iff]
  constructor
  · rintro ⟨v, held, read⟩
    rw [held, Bytes.ofText_of_toText? read]
  · exact fun held => ⟨_, held, Bytes.toText?_ofText s⟩

section Listing

variable (env : Environ)

def listed : List Bytes := env.pairs.map Prod.fst

theorem nodup_listed : env.listed.Nodup := distinct_of_sorted env.sorted

theorem mem_listed : k ∈ env.listed ↔ (env.get? k).isSome := by
  unfold listed
  rw [List.mem_map, Option.isSome_iff_exists]
  constructor
  · rintro ⟨⟨j, v⟩, stands, rfl⟩
    exact ⟨v, get?_eq_some_iff.2 stands⟩
  · rintro ⟨v, held⟩
    exact ⟨(k, v), get?_eq_some_iff.1 held, rfl⟩

theorem count_listed (k : Bytes) : env.listed.count k = if (env.get? k).isSome then 1 else 0 := by
  simp only [← env.mem_listed]
  exact env.nodup_listed.count

end Listing

/-- The variables that pairs and edits name. -/
def named (ps : List (Bytes × Bytes)) (xs : List Edit) : Finset Bytes :=
  (ps.map Prod.fst ++ xs.map Edit.name).toFinset

/-- A variable that nothing names is not set. -/
theorem mem_named_of_alone {xs : List Edit} (set : (alone ps xs k).2.isSome) : k ∈ named ps xs := by
  by_contra unnamed
  simp only [named, List.mem_toFinset, List.mem_append, List.mem_map, not_or, not_exists, not_and]
    at unnamed
  have pairs : lastOf k ps = none := by
    unfold lastOf
    rw [List.filter_eq_nil_iff.2 fun p hp => by simpa using unnamed.1 p hp]
    rfl
  have edits : naming k xs = [] := List.filter_eq_nil_iff.2 fun x hx => by simpa using unnamed.2 x hx
  rw [alone, pairs, edits] at set
  cases set

/-- Whatever pairs an environment is made of and however it is edited, each variable holds, and its edits
hand out, what comes of the pairs and the edits that name it alone. The variables that are set are listed
in order, each of them once, and the size is the number of them. -/
theorem edited_alone (ps : List (Bytes × Bytes)) (xs : List Edit) :
    let run := goThrough Edit.apply (ofPairs ps) xs
    (∀ k, run.2.get? k = (alone ps xs k).2 ∧ handed k xs run.1 = (alone ps xs k).1) ∧
    (∀ k s, run.2.text? k = some s ↔ (alone ps xs k).2 = some (ofText s)) ∧
    (∀ k v, (k, v) ∈ run.2.pairs ↔ (alone ps xs k).2 = some v) ∧
    (∀ k, (run.2.pairs.map Prod.fst).count k = if (alone ps xs k).2.isSome then 1 else 0) ∧
    run.2.pairs.Pairwise (fun x y => x.1 < y.1) ∧
    run.2.size = ((named ps xs).filter fun k => (alone ps xs k).2.isSome).card := by
  intro run
  have each (k : Bytes) : run.2.get? k = (alone ps xs k).2 ∧ handed k xs run.1 = (alone ps xs k).1 := by
    have seen := goThrough_apply (ofPairs ps) xs k
    rwa [get?_ofPairs] at seen
  have value (k : Bytes) : (alone ps xs k).2 = run.2.get? k := (each k).1.symm
  refine ⟨each, fun k s => ?_, fun k v => ?_, fun k => ?_, run.2.sorted, ?_⟩
  · rw [value, text?_eq_some_iff]
  · rw [value, get?_eq_some_iff]
  · rw [value]
    exact run.2.count_listed k
  · have names : run.2.listed.toFinset = (named ps xs).filter fun k => (alone ps xs k).2.isSome := by
      ext k
      rw [List.mem_toFinset, mem_listed, ← value, Finset.mem_filter]
      exact (and_iff_right_of_imp mem_named_of_alone).symm
    rw [← names, List.toFinset_card_of_nodup run.2.nodup_listed]
    exact (List.length_map _).symm

/-- The last pair counts, and what is put in front after a removal is put in front of nothing. -/
example : goThrough Edit.apply (ofPairs [([65], [1]), ([66], []), ([65], [2])])
      [.prepend [65] [3] [58], .remove [65], .prepend [65] [4] [58]] =
    ([none, some [3, 58, 2], none], ofPairs [([65], [4]), ([66], [])]) := by decide +kernel

end Environ
end PinnedDeps
