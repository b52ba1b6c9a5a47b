import PinnedDeps.Proofs.Action.Run
import PinnedDeps.Proofs.Ancestors
import PinnedDeps.Proofs.Volume.Upright

/-!
Making a directory with its parents, whatever state the volume is in. Nothing but directories is
made, where nothing was, and each of them has a name out of the path.
-/
namespace PinnedDeps

open Bytes (dot)

namespace Path

variable {p q : Path}

theorem steps_ofComponents_take (p : Path) (k : Nat) :
    (ofComponents (p.components.take k)).steps = p.steps.take (k - p.lead.length) := by
  have empty : (ofComponents []).steps = [] := by decide
  have short : p.lead.length ≤ 1 := by
    rcases lead_cases p with ⟨_, h, _⟩ | ⟨_, _, h, _⟩ | ⟨_, h, _⟩ <;> simp [h]
  rw [components_eq]
  by_cases h : k < p.lead.length
  · obtain rfl : k = 0 := by omega
    rw [Nat.zero_sub, List.take_zero, List.take_zero, empty]
  · rw [List.take_append, List.take_of_length_le (by omega), ← List.map_take]
    exact steps_upTo p _

/-- The paths above a path are made of its first steps. -/
theorem steps_of_mem_ancestors (h : q ∈ p.ancestors) : ∃ k, q.steps = p.steps.take k := by
  rcases List.mem_cons.1 h with rfl | h
  · exact ⟨q.steps.length, List.take_length.symm⟩
  · obtain ⟨i, _, rfl⟩ := List.mem_map.1 h
    exact ⟨_, steps_ofComponents_take p _⟩

end Path

namespace Volume

variable {v u : Volume} {N : Nat} {cwd d e : Location} {s n : Bytes} {parts : List Bytes} {q : Path}

/-- A walk that stops at a name has taken it from the end of the path. -/
theorem passage_name_last (h : Passage v false N d parts (.ok (.name e s))) :
    parts.getLast? = some s ∧ s ≠ [dot] := by
  generalize hr : (Except.ok (Landing.name e s) : Except SystemError Landing) = r at h
  have behind : ∀ {x : Bytes} {rest : List Bytes}, rest.getLast? = some s ∧ s ≠ [dot] →
      (x :: rest).getLast? = some s ∧ s ≠ [dot] := by
    rintro x rest ⟨hs, hd⟩
    obtain ⟨a, rfl⟩ := List.getLast?_eq_some_iff.1 hs
    exact ⟨by simp [List.getLast?_cons], hd⟩
  induction h with
  | done => cases hr
  | stay _ ih => exact behind (ih hr)
  | up _ ih => exact behind (ih hr)
  | long => cases hr
  | enter _ _ _ _ ih => exact behind (ih hr)
  | @follow N d x t rest r _ _ hne _ ih =>
    obtain ⟨hs, hd⟩ := ih hr
    have hrest : rest ≠ [] := fun g => hne ⟨g, rfl⟩
    rw [List.getLast?_append, List.getLast?_eq_some_getLast hrest, Option.some_or] at hs
    exact behind ⟨(List.getLast?_eq_some_getLast hrest).trans hs, hd⟩
  | exhausted => cases hr
  | stop hs _ =>
    cases hr
    exact ⟨rfl, hs.notDot⟩
  | blocked => cases hr
  | missing => cases hr

theorem mem_steps_of_reachName (h : reachName v cwd q = .ok (.name d n)) : n ∈ q.steps := by
  obtain ⟨hl, hd⟩ := passage_name_last (reachName_ok.1 h).2
  exact List.mem_filter.2 ⟨List.mem_of_getLast? hl, by simpa using hd⟩

/-- The second volume has some more directories, whose names are out of a list. -/
def NewDirs (names : List Bytes) (v u : Volume) : Prop :=
  ∀ l, u.lookup l = v.lookup l ∨
    v.lookup l = none ∧ u.lookup l = some .dir ∧ ∃ n ∈ names, l.head? = some n

theorem NewDirs.refl (names : List Bytes) (v : Volume) : NewDirs names v v := Laid.refl _ v

theorem NewDirs.trans {names : List Bytes} (v u w : Volume) (h : NewDirs names v u)
    (g : NewDirs names u w) : NewDirs names v w := Laid.trans v u w h g

/-- Nothing is lost where directories are made. -/
theorem NewDirs.thins {names : List Bytes} (h : NewDirs names v u) : Thins u v :=
  fun _ _ hx => Laid.lookup h hx

/-- Where nothing was, nothing is, unless the name is in the list. -/
theorem NewDirs.spares {names : List Bytes} {l : Location} (h : NewDirs names v u)
    (hn : ∀ n ∈ names, l.head? ≠ some n) : Spares l v u := by
  intro hl
  rcases h l with h | ⟨_, _, n, hm, hh⟩
  · rw [h, hl]
  · exact absurd hh (hn n hm)

theorem newDirs_makeDir {names : List Bytes} (hq : ∀ s ∈ q.steps, s ∈ names)
    (h : v.makeDir cwd q = .ok u) : NewDirs names v u := by
  obtain ⟨d, n, hL, hn, rfl⟩ := makeDir_ok h
  exact laid_put ⟨n, hq n (mem_steps_of_reachName hL), rfl⟩ hn

end Volume

namespace Action

open Volume

variable {o : Machine} {w w' : World} {cwd : Location} {p q : Path} {qs missing found : List Path}
  {names : List Bytes} {R : Volume → Volume → Prop}

/-- The search comes back with paths that it was given. -/
theorem mem_of_makeNearest (h : (makeNearest qs missing).run o w = (.ok found, w'))
    (hq : q ∈ found) : q ∈ qs ∨ q ∈ missing := by
  induction qs generalizing missing w with
  | nil =>
    cases h
    exact .inr hq
  | cons x above ih =>
    rw [makeNearest] at h
    split at h
    · cases h
      exact .inr hq
    obtain ⟨made, w₁, _, h⟩ := run_bind_ok.1 h
    split at h
    · cases h
      exact .inr hq
    · rcases ih h with g | g
      · exact .inl (by simp [g])
      · rcases List.mem_cons.1 g with rfl | g
        · exact .inl (by simp)
        · exact .inr g

section

variable (hr : ∀ v, R v v) (ht : ∀ u v x, R u v → R v x → R u x)
include hr ht

theorem moves_ensureMade (h : ∀ v u, v.makeDir cwd q = .ok u → R v u) :
    Moves cwd R (ensureMade q) := by
  refine moves_tryCatch ht (moves_change hr h) fun e => ?_
  refine moves_bind ht (moves_look hr _) fun b => ?_
  split
  · exact moves_pure hr _
  · exact moves_throw hr _

theorem moves_makeNearest (h : ∀ q ∈ qs, ∀ v u, v.makeDir cwd q = .ok u → R v u) :
    Moves cwd R (makeNearest qs missing) := by
  induction qs generalizing missing with
  | nil => exact moves_pure hr _
  | cons q above ih =>
    rw [makeNearest]
    split
    · exact moves_pure hr _
    refine moves_bind ht (moves_tryCatch ht ?_ fun e => ?_) fun made => ?_
    · exact moves_bind ht (moves_change hr (h q (by simp))) fun _ => moves_pure hr _
    · split
      · exact moves_pure hr _
      refine moves_bind ht (moves_look hr _) fun b => ?_
      split
      · exact moves_pure hr _
      · exact moves_throw hr _
    · split
      · exact moves_pure hr _
      · exact ih fun x hx => h x (by simp [hx])

/-- Whatever holds of the making of each directory on the way holds of the whole. -/
theorem moves_ensureDir_of (h : ∀ q ∈ p.ancestors, ∀ v u, v.makeDir cwd q = .ok u → R v u) :
    Moves cwd R (ensureDir p) := by
  refine moves_bind_of (Q := fun qs => ∀ q ∈ qs, q ∈ p.ancestors) ht (moves_makeNearest hr ht h)
    ?_ fun found hfound => ?_
  · intro o w qs w' run q hq
    simpa using mem_of_makeNearest run hq
  · exact moves_forM hr ht fun q hq => moves_ensureMade hr ht (h q (hfound q hq))

end

/-- Every directory that is made on the way has a name out of the path. -/
theorem moves_ensureDir (p : Path) : Moves cwd (NewDirs p.steps) (ensureDir p) := by
  refine moves_ensureDir_of (NewDirs.refl _) NewDirs.trans fun q hq v u h => ?_
  refine newDirs_makeDir (fun s hs => ?_) h
  obtain ⟨k, hk⟩ := Path.steps_of_mem_ancestors hq
  exact List.mem_of_mem_take (hk ▸ hs)

theorem upright_ensureDir (p : Path) : Moves cwd (fun v u => Upright v ∧ v.lookup cwd = some .dir →
    Upright u ∧ u.lookup cwd = some .dir) (ensureDir p) := by
  refine moves_ensureDir_of (fun _ h => h) (fun _ _ _ f g h => g (f h)) fun q _ v u g h => ?_
  obtain ⟨upright, dirs⟩ := h.1.makeDir (lookup_startOf h.2 q.bytes) g
  exact ⟨upright, dirs _ h.2⟩

end Action
end PinnedDeps
