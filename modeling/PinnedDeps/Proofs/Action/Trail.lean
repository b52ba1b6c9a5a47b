import PinnedDeps.Proofs.Action.Remaking
import PinnedDeps.Proofs.Volume.Ground

/-!
Paths whose steps may lead up, as long as no link stands on them. `trail` lists the places that such a
path enters by name and `goal` is where it leads. Directories are made on the trail and nowhere else.
-/
namespace PinnedDeps

open Bytes (dot)

namespace Volume

/-- The places that a walk enters by name if it passes no link. -/
def trail : Location → List Bytes → List Location
  | _, [] => []
  | d, s :: rest =>
    if s = [dot] then trail d rest
    else if s = [dot, dot] then trail d.tail rest
    else (s :: d) :: trail (s :: d) rest

/-- Where a walk leads if it passes no link. -/
def goal : Location → List Bytes → Location
  | d, [] => d
  | d, s :: rest =>
    if s = [dot] then goal d rest
    else if s = [dot, dot] then goal d.tail rest
    else goal (s :: d) rest

/-- No link stands at any of the places. -/
def Unlinked (ls : List Location) (v : Volume) : Prop := ∀ l ∈ ls, ∀ t, v.lookup l ≠ some (.link t)

instance (ls : List Location) (v : Volume) : Decidable (Unlinked ls v) :=
  decidable_of_iff (∀ l ∈ ls, (v.lookup l).all (fun | .link _ => false | _ => true) = true) <| by
    refine forall₂_congr fun l _ => ?_
    cases v.lookup l with
    | none => simp
    | some x => cases x <;> simp

variable {v u : Volume} {follow : Bool} {N n : Nat} {cwd d e l : Location} {s : Bytes}
  {parts rest : List Bytes} {ls : List Location} {p q : Path}

@[simp] theorem trail_stay : trail d ([dot] :: rest) = trail d rest := by simp [trail]

@[simp] theorem goal_stay : goal d ([dot] :: rest) = goal d rest := by simp [goal]

@[simp] theorem trail_up : trail d ([dot, dot] :: rest) = trail d.tail rest := by simp [trail]

@[simp] theorem goal_up : goal d ([dot, dot] :: rest) = goal d.tail rest := by simp [goal]

theorem IsStep.trail_cons (h : IsStep s) : trail d (s :: rest) = (s :: d) :: trail (s :: d) rest := by
  rw [trail, if_neg h.notDot, if_neg h.notUp]

theorem IsStep.goal_cons (h : IsStep s) : goal d (s :: rest) = goal (s :: d) rest := by
  rw [goal, if_neg h.notDot, if_neg h.notUp]

theorem goal_append (d : Location) (parts rest : List Bytes) :
    goal d (parts ++ rest) = goal (goal d parts) rest := by
  induction parts generalizing d with
  | nil => rfl
  | cons s parts ih =>
    rw [List.cons_append, goal, goal, ih, ih, ih]
    split
    · rfl
    · split <;> rfl

theorem trail_append (d : Location) (parts rest : List Bytes) :
    trail d (parts ++ rest) = trail d parts ++ trail (goal d parts) rest := by
  induction parts generalizing d with
  | nil => rfl
  | cons s parts ih =>
    rw [List.cons_append, trail, trail, goal, ih, ih, ih]
    split
    · rfl
    · split <;> rfl

theorem trail_filter (d : Location) (parts : List Bytes) :
    trail d (parts.filter (· ≠ [dot])) = trail d parts := by
  induction parts generalizing d with
  | nil => rfl
  | cons s parts ih =>
    by_cases hs : s = [dot]
    · rw [hs, List.filter_cons_of_neg (by simp), ih, trail_stay]
    · rw [List.filter_cons_of_pos (by simpa using hs), trail, trail, ih, ih, ih]

theorem Unlinked.laid {P : Location → Prop} (h : Unlinked ls v) (g : Laid P v u) : Unlinked ls u := by
  intro l hl t ht
  rcases g l with same | ⟨_, dir, _⟩
  · exact h l hl t (same.symm.trans ht)
  · rw [dir] at ht
    cases ht

theorem Leads.unlinked (h : Leads v n d parts e) (clear : Unlinked (trail d parts) v) : n = 0 := by
  induction h with
  | done => rfl
  | stay _ ih => exact ih (by simpa using clear)
  | up _ ih => exact ih (by simpa using clear)
  | enter hs _ _ ih =>
    rw [hs.trail_cons] at clear
    exact ih fun l hl => clear l (by simp [hl])
  | @follow _ d s t _ _ hs hl =>
    rw [hs.trail_cons] at clear
    exact absurd hl (clear (s :: d) (by simp) t)

/-- A way without links leads through the directories on its trail. -/
theorem Leads.trail (h : Leads v 0 d parts e) :
    e = goal d parts ∧ ∀ l ∈ trail d parts, v.lookup l = some .dir := by
  generalize none : 0 = n at h
  induction h with
  | done => exact ⟨rfl, by simp [Volume.trail]⟩
  | stay _ ih => simpa using ih none
  | up _ ih => simpa using ih none
  | enter hs hl _ ih =>
    rw [hs.trail_cons, hs.goal_cons]
    exact ⟨(ih none).1, List.forall_mem_cons.2 ⟨hl, (ih none).2⟩⟩
  | follow => cases none

theorem Leads.dirs (h : Leads v 0 d parts e) (g : Dirs v u) : Leads u 0 d parts e := by
  generalize none : 0 = n at h
  induction h with
  | done => exact .done
  | stay _ ih => exact .stay (ih none)
  | up _ ih => exact .up (ih none)
  | enter hs hl _ ih => exact .enter hs (g _ hl) (ih none)
  | follow => cases none

/-- A walk that passes no link stops at a name on its trail. -/
theorem Passage.on_trail (h : Passage v follow N d parts (.ok (.name e s)))
    (clear : Unlinked (trail d parts) v) : s :: e ∈ trail d parts := by
  generalize hr : (Except.ok (Landing.name e s) : Except SystemError Landing) = r at h
  induction h with
  | done => cases hr
  | stay _ ih =>
    rw [trail_stay] at clear ⊢
    exact ih clear hr
  | up _ ih =>
    rw [trail_up] at clear ⊢
    exact ih clear hr
  | long => cases hr
  | enter hs _ _ _ ih =>
    rw [hs.trail_cons] at clear ⊢
    exact List.mem_cons_of_mem _ (ih (fun l hl => clear l (by simp [hl])) hr)
  | @follow _ d s t _ _ hs hl =>
    rw [hs.trail_cons] at clear
    exact absurd hl (clear (s :: d) (by simp) t)
  | exhausted => cases hr
  | stop hs _ =>
    cases hr
    rw [hs.trail_cons]
    exact List.mem_cons_self
  | blocked => cases hr
  | missing => cases hr

end Volume

namespace Path

open Volume

variable {p q : Path} {n : String} {cwd : Location}

/-- The places that a path enters by name if it passes no link. -/
def trail (p : Path) (cwd : Location) : List Location :=
  Volume.trail (startOf cwd p.bytes) p.segments

/-- Where a path leads if it passes no link. -/
def goal (p : Path) (cwd : Location) : Location := Volume.goal (startOf cwd p.bytes) p.segments

theorem goal_div (hn : IsName (Bytes.ofText n)) (cwd : Location) :
    (p / n).goal cwd = Bytes.ofText n :: p.goal cwd := by
  unfold goal
  rw [segments_div p hn, start_div p hn, goal_append, Volume.goal, if_neg hn.notDot, if_neg hn.notUp]
  rfl

theorem trail_div (hn : IsName (Bytes.ofText n)) (cwd : Location) :
    (p / n).trail cwd = p.trail cwd ++ [Bytes.ofText n :: p.goal cwd] := by
  unfold trail
  rw [segments_div p hn, start_div p hn, trail_append, Volume.trail, if_neg hn.notDot, if_neg hn.notUp]
  rfl

/-- The paths above a path have their places on its trail. -/
theorem trail_subset (h : q ∈ p.ancestors) (cwd : Location) : q.trail cwd ⊆ p.trail cwd := by
  obtain ⟨k, hk⟩ := steps_of_mem_ancestors h
  unfold trail
  rw [ancestors_start h, ← trail_filter _ q.segments, ← trail_filter _ p.segments]
  show Volume.trail _ q.steps ⊆ Volume.trail _ p.steps
  have split : p.steps = q.steps ++ p.steps.drop k := by rw [hk, List.take_append_drop]
  rw [split, trail_append]
  exact List.subset_append_left _ _

end Path

namespace Volume

variable {v u : Volume} {cwd e l : Location} {p : Path} {n : String}

/-- The path leads to its goal through directories alone. -/
def Direct (v : Volume) (cwd : Location) (p : Path) : Prop :=
  Leads v 0 (startOf cwd p.bytes) p.segments (p.goal cwd)

theorem Direct.opens (h : Direct v cwd p) : Opens v cwd p (p.goal cwd) := ⟨0, Nat.zero_le _, h⟩

theorem Direct.keep (h : Direct v cwd p) (g : Dirs v u) : Direct u cwd p := Leads.dirs h g

theorem Direct.on_trail (h : Direct v cwd p) (hl : l ∈ p.trail cwd) : v.lookup l = some .dir :=
  (Leads.trail h).2 l hl

theorem Opens.direct (h : Opens v cwd p e) (clear : Unlinked (p.trail cwd) v) : Direct v cwd p := by
  obtain ⟨n, -, h⟩ := h
  obtain rfl := h.unlinked clear
  obtain rfl := h.trail.1
  exact h

end Volume

namespace Action

open Volume

variable {o : Machine} {w w₁ : World} {cwd : Location} {p : Path}

/-- Along a path without links, directories are made on its trail and nowhere else. -/
theorem moves_ensureDir_laid (p : Path) : Moves cwd
    (fun v u => Unlinked (p.trail cwd) v → Laid (· ∈ p.trail cwd) v u) (ensureDir p) := by
  refine moves_ensureDir_of (fun v _ => .refl _ v) ?_ ?_
  · intro u v x h g clear
    have first := h clear
    exact first.trans _ _ _ (g (clear.laid first))
  · intro q hq v u made clear
    have above := Path.trail_subset hq cwd
    obtain ⟨d, n, hL, hn, rfl⟩ := makeDir_ok made
    have place : n :: d ∈ q.trail cwd :=
      (reachName_ok.1 hL).2.on_trail fun l hl => clear l (above hl)
    exact laid_put (above place) hn

/-- A directory that has been made is where its path leads, and as long as no directory is lost there
is nothing left to do. -/
theorem ensureDir_direct (clear : Unlinked (p.trail w.cwd) w.volume)
    (run : (ensureDir p).run o w = (.ok (), w₁)) :
    w₁.cwd = w.cwd ∧ Laid (· ∈ p.trail w.cwd) w.volume w₁.volume ∧ Direct w₁.volume w.cwd p ∧
      ∀ o u, u.cwd = w.cwd → Dirs w₁.volume u.volume → (ensureDir p).run o u = (.ok (), u) := by
  have moved := moves_ensureDir_laid p o w rfl
  rw [run] at moved
  have laid := moved.now clear
  have clear₁ := clear.laid laid
  refine ⟨moved.cwd, laid, ?_⟩
  rcases ensureDir_ok run with ⟨top, rfl⟩ | ⟨usable, e, opens, dir⟩
  · have none : p.steps = [] := by
      refine Classical.byContradiction fun g => ?_
      have above := Path.parent_ne_none g
      exact top.elim above.1 above.2
    have opens : Opens w₁.volume w₁.cwd p (startOf w₁.cwd p.bytes) :=
      opens_steps.2 ⟨0, Nat.zero_le _, by rw [none]; exact .done⟩
    exact ⟨opens.direct clear₁, fun _ _ _ _ => run_ensureDir_top top⟩
  · rw [moved.cwd] at opens
    have direct := opens.direct clear₁
    refine ⟨direct, fun o u cwd dirs => ?_⟩
    rw [opens.unique direct.opens] at dir
    exact run_ensureDir_there usable (cwd ▸ (direct.keep dirs).opens) (cwd ▸ dirs _ dir)

end Action
end PinnedDeps
