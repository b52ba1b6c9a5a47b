import PinnedDeps.Proofs.Action.Straight
import PinnedDeps.Proofs.Volume.Rooted

/-!
Making a directory once more. Where it has been made, nothing is left to do; and where its making
has failed, it fails again for the same reason.
-/
namespace PinnedDeps

open Bytes (dot)

namespace Volume

variable {v u : Volume} {follow : Bool} {N : Nat} {cwd d l : Location} {parts parts' more : List Bytes}
  {p q x : Path} {z : Bytes} {e : IoError} {L : Landing}

/-- The path can be used and leads to a directory. -/
def Stands (v : Volume) (cwd : Location) (p : Path) : Prop :=
  checkPath p = .ok () ∧ ∃ l, Opens v cwd p l ∧ v.lookup l = some .dir

theorem Stands.keep (h : Stands v cwd p) (k : Keeps v u) : Stands u cwd p := by
  obtain ⟨usable, l, opens, dir⟩ := h
  exact ⟨usable, l, opens.keep k, k l _ dir (by simp)⟩

theorem Stands.exists_ (h : Stands v cwd p) :
    v.makeDir cwd p = .error (.system .alreadyExists) ∧ v.leadsToDir cwd p = true := by
  obtain ⟨usable, l, opens, dir⟩ := h
  exact makeDir_exists usable opens dir

theorem stands_of_makeDir (h : v.makeDir cwd p = .ok u) : Stands u cwd p := by
  obtain ⟨d, n, hL, hn, rfl⟩ := makeDir_ok h
  exact ⟨(reachName_ok.1 hL).1, _, makeDir_opens hL hn, (lookup_put v _ _ (by simp)).trans (if_pos rfl)⟩

theorem stands_of_leadsToDir (h : v.leadsToDir cwd p = true) : Stands v cwd p := by
  refine ⟨?_, opens_of_leadsToDir h⟩
  unfold leadsToDir at h
  split at h
  · rename_i hs
    obtain ⟨L, hL, -⟩ := stat_ok.1 hs
    exact (reach_ok.1 hL).1
  · cases h

theorem keeps_makeDir (h : v.makeDir cwd p = .ok u) : Keeps v u := by
  obtain ⟨d, n, -, hn, rfl⟩ := makeDir_ok h
  exact keeps_put .dir hn

/-- A directory is not made because its path cannot be followed or because something is there. -/
theorem makeDir_error (h : v.makeDir cwd p = .error e) : reachName v cwd p = .error e ∨
    e = .system .alreadyExists ∧ ∃ L, reachName v cwd p = .ok L ∧
      ∀ d n, L = .name d n → (v.lookup (n :: d)).isSome := by
  unfold makeDir at h
  cases hL : reachName v cwd p with
  | error x =>
    rw [hL] at h
    cases h
    exact .inl rfl
  | ok L =>
    rw [hL] at h
    cases L with
    | place l =>
      cases h
      exact .inr ⟨rfl, _, rfl, by simp⟩
    | name d n =>
      simp only [bind, Except.bind] at h
      split at h
      · rename_i there
        cases h
        refine .inr ⟨rfl, _, rfl, ?_⟩
        rintro d n ⟨rfl, rfl⟩
        exact there
      · cases h

theorem makeDir_of_reachName (h : reachName v cwd p = .error e) : v.makeDir cwd p = .error e := by
  unfold makeDir
  rw [h]
  rfl

/-- What is missed has a path that can be used. -/
theorem usable_of_missing (nonempty : p.bytes ≠ [])
    (h : v.makeDir cwd p = .error (.system .noEntry)) : checkPath p = .ok () := by
  cases hc : checkPath p with
  | ok _ => rfl
  | error y =>
    have refused : v.makeDir cwd p = .error y := by
      refine makeDir_of_reachName ?_
      unfold reachName
      rw [hc]
      rfl
    rw [h] at refused
    cases refused
    unfold checkPath at hc
    rw [if_neg nonempty] at hc
    split at hc
    · cases hc
    · split at hc <;> cases hc

theorem Passage.error_ne {x : SystemError} (h : Passage v follow N d parts (.error x)) :
    x ≠ .alreadyExists := by
  generalize hr : (Except.error x : Except SystemError Landing) = r at h
  induction h with
  | done => cases hr
  | stay _ ih => exact ih hr
  | up _ ih => exact ih hr
  | long => cases hr; decide
  | enter _ _ _ _ ih => exact ih hr
  | follow _ _ _ _ ih => exact ih hr
  | exhausted => cases hr; decide
  | stop => cases hr
  | blocked => cases hr; decide
  | missing => cases hr; decide

/-- A path that can be used fails on its way, and not because something is there. -/
theorem reachName_error (usable : checkPath p = .ok ()) :
    reachName v cwd p = .error e ↔ ∃ x, e = .system x ∧
      Passage v false maxLinks (startOf cwd p.bytes) p.segments (.error x) := by
  unfold reachName
  rw [usable]
  show lift (walk v false maxLinks (startOf cwd p.bytes) p.segments) = _ ↔ _
  simp only [passage_iff]
  cases walk v false maxLinks (startOf cwd p.bytes) p.segments with
  | error x =>
    constructor
    · intro h
      cases h
      exact ⟨x, rfl, rfl⟩
    · rintro ⟨_, rfl, h⟩
      cases h
      rfl
  | ok L =>
    constructor
    · intro h
      cases h
    · rintro ⟨_, _, h⟩
      cases h

theorem Passage.stays {r : Except SystemError Landing} (k : Nat) (h : Passage v follow N d parts r) :
    Passage v follow N d (List.replicate k [dot] ++ parts) r := by
  induction k with
  | zero => exact h
  | succ k ih => exact .stay ih

/-- A part that is no dot comes again where the same parts are walked with other dots. -/
theorem next_step {s : Bytes} {rest : List Bytes} (hs : s ≠ [dot])
    (hf : parts'.filter (· ≠ [dot]) = (s :: rest).filter (· ≠ [dot]) ++ z :: more) :
    ∃ k rest', parts' = List.replicate k [dot] ++ s :: rest' ∧
      rest'.filter (· ≠ [dot]) = rest.filter (· ≠ [dot]) ++ z :: more := by
  rw [List.filter_cons_of_pos (by simpa using hs), List.cons_append] at hf
  obtain ⟨l, rest', rfl, hl, -, hr⟩ := List.filter_eq_cons_iff.1 hf
  refine ⟨l.length, rest', ?_, hr⟩
  rw [← List.eq_replicate_iff.2 ⟨rfl, fun x hx => by simpa using hl x hx⟩]

/-- A walk that has failed does not come further on a longer way. -/
theorem Passage.fails_on {x : SystemError} (h : Passage v follow N d parts (.error x))
    (hf : parts'.filter (· ≠ [dot]) = parts.filter (· ≠ [dot]) ++ z :: more) :
    Passage v follow N d parts' (.error x) := by
  have goesOn : ∀ {rest rest' : List Bytes}, rest'.filter (· ≠ [dot]) = rest ++ z :: more → rest' ≠ [] := by
    rintro rest rest' hr rfl
    simp at hr
  generalize hr : (Except.error x : Except SystemError Landing) = r at h
  induction h generalizing parts' with
  | done => cases hr
  | stay _ ih => exact ih (by simpa using hf) hr
  | up _ ih =>
    obtain ⟨k, rest', rfl, later⟩ := next_step (by decide) hf
    exact (Passage.up (ih later hr)).stays k
  | long hd hu hl =>
    obtain ⟨k, rest', rfl, later⟩ := next_step hd hf
    exact (Passage.long hd hu hl).stays k
  | enter hs hl _ _ ih =>
    obtain ⟨k, rest', rfl, later⟩ := next_step hs.notDot hf
    exact (Passage.enter hs hl (goesOn later) (ih later hr)).stays k
  | follow hs hl _ _ ih =>
    obtain ⟨k, rest', rfl, later⟩ := next_step hs.notDot hf
    refine (Passage.follow hs hl (fun g => goesOn later g.1) (ih ?_ hr)).stays k
    rw [List.filter_append, later, List.filter_append, List.append_assoc]
  | exhausted hs hl _ =>
    obtain ⟨k, rest', rfl, later⟩ := next_step hs.notDot hf
    exact (Passage.exhausted hs hl fun g => goesOn later g.1).stays k
  | stop => cases hr
  | blocked hs hl _ =>
    obtain ⟨k, rest', rfl, later⟩ := next_step hs.notDot hf
    exact (Passage.blocked hs hl (goesOn later)).stays k
  | missing hs hl _ =>
    obtain ⟨k, rest', rfl, later⟩ := next_step hs.notDot hf
    exact (Passage.missing hs hl (goesOn later)).stays k

/-- The first path is that of a part of the steps of the second. -/
def Above (x q : Path) : Prop :=
  (∀ d, startOf d x.bytes = startOf d q.bytes) ∧ (x.steps = [] ∨ ∃ z more, q.steps = x.steps ++ z :: more)

theorem above_of_take {a b : Nat} (start : ∀ d, startOf d x.bytes = startOf d q.bytes)
    (hx : x.steps = p.steps.take a) (hq : q.steps = p.steps.take b)
    (hab : a = 0 ∨ a < b ∧ a < p.steps.length) : Above x q := by
  refine ⟨start, ?_⟩
  rcases hab with rfl | ⟨hab, hlen⟩
  · exact .inl (by simpa using hx)
  · have rest : (q.steps.drop a) ≠ [] := by
      intro g
      have := List.drop_eq_nil_iff.1 g
      rw [hq, List.length_take] at this
      omega
    obtain ⟨z, more, hz⟩ := List.exists_cons_of_ne_nil rest
    refine .inr ⟨z, more, ?_⟩
    have front : q.steps.take a = x.steps := by
      rw [hq, hx, List.take_take, Nat.min_eq_left (by omega)]
    rw [← front, ← hz, List.take_append_drop]

/-- The paths above a path are each above those that come before them. -/
theorem pairwise_ancestors (p : Path) : p.ancestors.Pairwise fun q x => Above x q := by
  have size : p.components.length = p.lead.length + p.steps.length := by
    rw [Path.components_eq]
    simp
  have start : ∀ q ∈ p.ancestors, ∀ d, startOf d q.bytes = startOf d p.bytes :=
    fun q hq d => Path.ancestors_start hq d
  unfold Path.ancestors at start ⊢
  simp only [List.mem_cons, List.mem_map, List.mem_range] at start
  refine List.pairwise_cons.2 ⟨fun x hx => ?_, List.pairwise_map.2 ?_⟩
  · obtain ⟨i, hi, rfl⟩ := List.mem_map.1 hx
    refine above_of_take (start _ (.inr ⟨i, List.mem_range.1 hi, rfl⟩)) (Path.steps_ofComponents_take p _)
      List.take_length.symm ?_
    omega
  · refine List.Pairwise.imp_of_mem ?_ List.pairwise_lt_range
    intro i j hi hj hij
    have same : ∀ d, startOf d (Path.ofComponents (p.components.take (p.components.length - 1 - j))).bytes =
        startOf d (Path.ofComponents (p.components.take (p.components.length - 1 - i))).bytes := fun d =>
      (start _ (.inr ⟨j, List.mem_range.1 hj, rfl⟩) d).trans (start _ (.inr ⟨i, List.mem_range.1 hi, rfl⟩) d).symm
    refine above_of_take same (Path.steps_ofComponents_take p _) (Path.steps_ofComponents_take p _) ?_
    omega

theorem no_error_of_dots {y : SystemError} (h : parts.filter (· ≠ [dot]) = []) :
    ¬ Passage v false N d parts (.error y) := by
  intro g
  have leads : Leads v 0 d parts d := Leads.redot .done (by rw [h]; rfl)
  obtain ⟨L, walked, -⟩ := leads.named (Nat.zero_le N)
  cases g.unique walked

/-- Where a path fails, the paths below it fail too, and for the same reason. -/
theorem reachName_below (above : Above x q) (usable : checkPath x = .ok ()) (usable' : checkPath q = .ok ())
    (h : reachName v cwd x = .error e) : reachName v cwd q = .error e := by
  obtain ⟨y, rfl, failed⟩ := (reachName_error usable).1 h
  refine (reachName_error usable').2 ⟨y, rfl, ?_⟩
  rcases above.2 with none | ⟨z, more, longer⟩
  · exact absurd failed (no_error_of_dots none)
  · rw [← above.1]
    exact failed.fails_on longer

/-- Without links, a way that leads down misses something at the place it names or above it. -/
theorem Passage.misses (h : Passage v follow N d parts (.error .noEntry)) (down : [dot, dot] ∉ parts)
    (linkless : Linkless ((parts.filter (· ≠ [dot])).reverse ++ d) v) :
    ∃ k, Below ((parts.filter (· ≠ [dot])).reverse ++ d) k ∧ v.lookup k = none := by
  generalize hr : (Except.error .noEntry : Except SystemError Landing) = r at h
  have named : ∀ {s : Bytes} {rest : List Bytes} {d : Location}, s ≠ [dot] →
      ((s :: rest).filter (· ≠ [dot])).reverse ++ d = (rest.filter (· ≠ [dot])).reverse ++ s :: d := by
    intro s rest d hs
    simp [hs]
  induction h with
  | done => cases hr
  | stay _ ih =>
    simp only [ne_eq, not_true_eq_false, decide_false, List.filter_cons_of_neg, Bool.false_eq_true,
      not_false_eq_true] at linkless ⊢
    exact ih (fun g => down (by simp [g])) linkless hr
  | up => exact absurd (by simp) down
  | long => cases hr
  | enter hs _ _ _ ih =>
    rw [named hs.notDot] at linkless ⊢
    exact ih (fun g => down (by simp [g])) linkless hr
  | follow hs hl =>
    rw [named hs.notDot] at linkless
    exact absurd hl (linkless _ _ (below_append _ _))
  | exhausted => cases hr
  | stop => cases hr
  | blocked => cases hr
  | missing hs hl =>
    rw [named hs.notDot]
    exact ⟨_, below_append _ _, hl⟩

/-- A walk that ends at a directory itself has gone a way to it. -/
theorem Passage.leads_place (h : Passage v follow N d parts (.ok (.place l))) :
    ∃ n, n ≤ N ∧ Leads v n d parts l := by
  generalize hr : (Except.ok (.place l) : Except SystemError Landing) = r at h
  induction h with
  | done => cases hr; exact ⟨0, Nat.zero_le _, .done⟩
  | stay _ ih =>
    obtain ⟨n, hn, g⟩ := ih hr
    exact ⟨n, hn, .stay g⟩
  | up _ ih =>
    obtain ⟨n, hn, g⟩ := ih hr
    exact ⟨n, hn, .up g⟩
  | long => cases hr
  | enter hs hl _ _ ih =>
    obtain ⟨n, hn, g⟩ := ih hr
    exact ⟨n, hn, .enter hs hl g⟩
  | follow hs hl _ _ ih =>
    obtain ⟨n, hn, g⟩ := ih hr
    exact ⟨n + 1, Nat.succ_le_succ hn, .follow hs hl g⟩
  | exhausted => cases hr
  | stop => cases hr
  | blocked => cases hr
  | missing => cases hr

/-- What is missing at first and is there after directories have been made, is one of these. -/
theorem leadsToDir_of_made {names : List Bytes} (upright : Upright v) (upright' : Upright u)
    (here : u.lookup cwd = some .dir) (made : NewDirs names v u) (down : p.Descends)
    (linkless : Linkless (p.place cwd) v) (linkless' : Linkless (p.place cwd) u)
    (usable : checkPath p = .ok ()) (missed : v.makeDir cwd p = .error (.system .noEntry))
    (there : u.makeDir cwd p = .error (.system .alreadyExists)) : u.leadsToDir cwd p = true := by
  rcases makeDir_error there with failed | ⟨-, L, hL, some_⟩
  · obtain ⟨y, hy, walked⟩ := (reachName_error usable).1 failed
    exact absurd (by simpa using hy.symm) walked.error_ne
  have walked := (reachName_ok.1 hL).2
  cases L with
  | place l =>
    obtain ⟨n, hn, leads⟩ := walked.leads_place
    have opens : Opens u cwd p l := ⟨n, hn, leads⟩
    exact (makeDir_exists usable opens (upright'.opens opens here)).2
  | name d n =>
    have place := reachName_place hL down (linkless'.above (below_tail _))
    obtain ⟨x, hx⟩ := Option.isSome_iff_exists.1 (some_ d n rfl)
    by_cases dir : x = .dir
    · subst dir
      obtain ⟨k, hk, leads⟩ := walked.leads_of_dir hx
      exact (makeDir_exists usable ⟨k, hk, leads⟩ hx).2
    · -- Then it was there before, and so was everything above it.
      have before : v.lookup (n :: d) = some x := by
        rcases made (n :: d) with same | ⟨-, new, -⟩
        · rw [← same, hx]
        · rw [hx] at new
          exact absurd (Option.some.inj new) dir
      rcases makeDir_error missed with failed | ⟨g, -⟩
      · obtain ⟨y, hy, walked⟩ := (reachName_error usable).1 failed
        cases hy
        obtain ⟨k, below, none⟩ := walked.misses (Path.descends_segments down) linkless
        have gone := upright.gone none (n :: d) (place ▸ below)
        rw [gone] at before
        cases before
      · cases g

end Volume

namespace Action

open Volume

variable {o : Machine} {w w₀ w₁ : World} {p q x : Path} {qs missing found : List Path} {e : IoError}

theorem keeps_ensureMades (qs : List Path) (cwd : Location) : Moves cwd Keeps (qs.forM ensureMade) :=
  moves_forM Keeps.refl (fun _ _ _ h g => h.trans g) fun _ _ =>
    moves_ensureMade Keeps.refl (fun _ _ _ h g => h.trans g) fun _ _ h => keeps_makeDir h

theorem ensureMade_ok (run : (ensureMade q).run o w = (.ok (), w₁)) :
    Stands w₁.volume w₁.cwd q ∧ Moved Keeps w w₁ := by
  rw [run_ensureMade] at run
  cases hv : w.volume.makeDir w.cwd q with
  | ok v =>
    rw [hv] at run
    cases run
    exact ⟨stands_of_makeDir hv, .set (keeps_makeDir hv)⟩
  | error e =>
    rw [hv] at run
    simp only at run
    split at run
    · rename_i there
      cases run
      exact ⟨stands_of_leadsToDir there.2, .refl Keeps.refl _⟩
    · cases run

/-- The directory cannot be made, and it is not there. -/
structure Refuses (w : World) (q : Path) (e : IoError) : Prop where
  refused : w.volume.makeDir w.cwd q = .error e
  away : ¬ (e = .system .alreadyExists ∧ w.volume.leadsToDir w.cwd q = true)

/-- The making of a directory that has failed leaves everything as it was. -/
theorem ensureMade_failed (run : (ensureMade q).run o w = (.error e, w₁)) :
    w₁ = w ∧ Refuses w q e := by
  rw [run_ensureMade] at run
  cases hv : w.volume.makeDir w.cwd q with
  | ok v =>
    rw [hv] at run
    cases run
  | error x =>
    rw [hv] at run
    simp only at run
    split at run
    · cases run
    · rename_i away
      cases run
      exact ⟨rfl, hv, away⟩

/-- Directories whose making has failed are not made the next time, and for the same reason. -/
theorem ensureMades_again (run : (qs.forM ensureMade).run o w = (.error e, w₁)) :
    (qs.forM ensureMade).run o w₁ = (.error e, w₁) := by
  induction qs generalizing w with
  | nil => cases run
  | cons q qs ih =>
    rw [forM_cons] at run ⊢
    rcases run_bind_error.1 run with failed | ⟨_, w₂, made, rest⟩
    · obtain ⟨rfl, -⟩ := ensureMade_failed failed
      exact run_bind_of_error failed
    · have later := keeps_ensureMades qs w₂.cwd o w₂ rfl
      rw [rest] at later
      have stands : Stands w₁.volume w₁.cwd q := later.cwd ▸ (ensureMade_ok made).1.keep later.now
      rw [run_bind_of_ok (run_ensureMade_exists stands.exists_)]
      exact ih rest

/-- Among directories whose making has failed there is one that could not be made. -/
theorem ensureMades_failed (run : (qs.forM ensureMade).run o w = (.error e, w₁)) :
    ∃ x ∈ qs, Refuses w₁ x e := by
  induction qs generalizing w with
  | nil => cases run
  | cons q qs ih =>
    rw [forM_cons] at run
    rcases run_bind_error.1 run with failed | ⟨_, w₂, -, rest⟩
    · obtain ⟨rfl, refused⟩ := ensureMade_failed failed
      exact ⟨q, by simp, refused⟩
    · obtain ⟨x, hx, refused⟩ := ih rest
      exact ⟨x, by simp [hx], refused⟩

/-- The search comes back with the paths that it has passed over. -/
theorem makeNearest_found (run : (makeNearest qs missing).run o w = (.ok found, w₁)) :
    ∃ passed, found = passed ++ missing ∧ ∀ x ∈ passed, x ∈ qs ∧ checkPath x = .ok () ∧
      w.volume.makeDir w.cwd x = .error (.system .noEntry) := by
  induction qs generalizing missing with
  | nil =>
    cases run
    exact ⟨[], rfl, by simp⟩
  | cons q above ih =>
    rw [run_makeNearest_cons] at run
    split at run
    · cases run
      exact ⟨[], rfl, by simp⟩
    rename_i head
    cases hv : w.volume.makeDir w.cwd q with
    | ok v =>
      rw [hv] at run
      cases run
      exact ⟨[], rfl, by simp⟩
    | error y =>
      rw [hv] at run
      simp only at run
      split at run
      · rename_i missed
        subst missed
        obtain ⟨passed, rfl, all⟩ := ih run
        refine ⟨passed ++ [q], by simp, fun x hx => ?_⟩
        rcases List.mem_append.1 hx with hx | hx
        · exact ⟨by simp [(all x hx).1], (all x hx).2⟩
        · obtain rfl := List.mem_singleton.1 hx
          exact ⟨by simp, usable_of_missing (fun g => head (.inl g)) hv, hv⟩
      split at run
      · cases run
        exact ⟨[], rfl, by simp⟩
      · cases run

theorem makeNearest_failed (run : (makeNearest qs missing).run o w = (.error e, w₁)) : w₁ = w := by
  induction qs generalizing missing with
  | nil => cases run
  | cons q above ih =>
    rw [run_makeNearest_cons] at run
    split at run
    · cases run
    cases hv : w.volume.makeDir w.cwd q with
    | ok v =>
      rw [hv] at run
      cases run
    | error y =>
      rw [hv] at run
      simp only at run
      split at run
      · exact ih run
      split at run
      · cases run
      · cases run
        rfl

/-- The making of directories in a row has failed before one of them, at it, or after it. -/
theorem ensureMades_stopped {more : List Path}
    (run : ((found ++ q :: more).forM ensureMade).run o w = (.error e, w₁)) :
    (∃ x ∈ found, Refuses w₁ x e) ∨ Refuses w₁ q e ∨
      Stands w₁.volume w₁.cwd q ∧ (more.forM ensureMade).run o w₁ = (.error e, w₁) := by
  rw [forM_append, forM_cons] at run
  rcases run_bind_error.1 run with failed | ⟨_, w₂, -, run⟩
  · exact .inl (ensureMades_failed failed)
  rcases run_bind_error.1 run with failed | ⟨_, w₃, made, failed⟩
  · obtain ⟨rfl, refuses⟩ := ensureMade_failed failed
    exact .inr (.inl refuses)
  · have rest := keeps_ensureMades more w₃.cwd o w₃ rfl
    rw [failed] at rest
    have stands := (ensureMade_ok made).1.keep rest.now
    exact .inr (.inr ⟨rest.cwd ▸ stands, ensureMades_again failed⟩)

section Again

variable {above : List Path} (head : ¬ (q.bytes = [] ∨ q.parent? = none))
include head

/-- From a directory that stands the next search takes the ones that are left. -/
theorem search_found (stands : Stands w.volume w.cwd q)
    (rest : (missing.forM ensureMade).run o w = (.error e, w)) :
    (do (← makeNearest (q :: above) missing).forM ensureMade).run o w = (.error e, w) := by
  rw [run_bind_of_ok (run_makeNearest_exists (not_or.1 head) stands.exists_), rest]

/-- A directory that is refused ends the next search, unless it is passed over again. -/
theorem search_refused (refuses : Refuses w q e)
    (next : (do (← makeNearest above (q :: missing)).forM ensureMade).run o w = (.error e, w)) :
    (do (← makeNearest (q :: above) missing).forM ensureMade).run o w = (.error e, w) := by
  rw [run_bind, run_makeNearest_cons, if_neg head, refuses.refused]
  by_cases missed : e = .system .noEntry
  · simp only [if_pos missed]
    rw [run_bind] at next
    exact next
  · simp only [if_neg missed, if_neg refuses.away]

end Again

/-- After a search that ends well, directories that fail to be made fail again. -/
theorem makeNearest_again (chain : qs.Pairwise fun q x => Above x q)
    (settled : ∀ x ∈ qs, checkPath x = .ok () → w.volume.makeDir w.cwd x = .error (.system .noEntry) →
      w₁.volume.makeDir w₁.cwd x = .error (.system .alreadyExists) →
        w₁.volume.leadsToDir w₁.cwd x = true)
    (run : (makeNearest qs missing).run o w = (.ok found, w₀))
    (failed : (found.forM ensureMade).run o w₀ = (.error e, w₁)) :
    (do (← makeNearest qs missing).forM ensureMade).run o w₁ = (.error e, w₁) := by
  have later := keeps_ensureMades found w₀.cwd o w₀ rfl
  rw [failed] at later
  have again := ensureMades_again failed
  induction qs generalizing missing with
  | nil =>
    cases run
    exact again
  | cons q above ih =>
    rw [run_makeNearest_cons] at run
    by_cases head : q.bytes = [] ∨ q.parent? = none
    · rw [if_pos head] at run
      cases run
      rw [run_bind, run_makeNearest_cons, if_pos head]
      exact again
    rw [if_neg head] at run
    cases hv : w.volume.makeDir w.cwd q with
    | ok v =>
      rw [hv] at run
      cases run
      exact search_found head (later.cwd ▸ (stands_of_makeDir hv).keep later.now) again
    | error y =>
      rw [hv] at run
      simp only at run
      split at run
      · rename_i missed
        subst missed
        have chain := List.pairwise_cons.1 chain
        have next := ih chain.2 (fun x hx => settled x (by simp [hx])) run
        obtain ⟨passed, rfl, all⟩ := makeNearest_found run
        rcases ensureMades_stopped failed with ⟨x, hx, refuses⟩ | refuses | ⟨stands, rest⟩
        · -- The path is refused as the directory was that has failed.
          obtain ⟨hx, usable, missed⟩ := all x hx
          rcases makeDir_error refuses.refused with refused | ⟨rfl, -⟩
          · have below := reachName_below (chain.1 x hx) usable
              (usable_of_missing (fun g => head (.inl g)) hv) refused
            obtain ⟨z, rfl, walked⟩ := (reachName_error usable).1 refused
            have away : IoError.system z ≠ .system .alreadyExists := fun g =>
              walked.error_ne (by simpa using g)
            exact search_refused head ⟨makeDir_of_reachName below, fun there => away there.1⟩ next
          · have dir := settled x (by simp [hx]) usable missed refuses.refused
            exact absurd ⟨rfl, dir⟩ refuses.away
        · exact search_refused head refuses next
        · exact search_found head stands rest
      split at run
      · rename_i there
        cases run
        exact search_found head (later.cwd ▸ (stands_of_leadsToDir there.2).keep later.now) again
      · cases run

/-- Where the making of a directory has failed, it fails again, and for the same reason. -/
theorem ensureDir_again (upright : Upright w.volume) (here : w.volume.lookup w.cwd = some .dir)
    (down : p.Descends) (linkless : Linkless (p.place w.cwd) w.volume)
    (failed : (ensureDir p).run o w = (.error e, w₁)) :
    (ensureDir p).run o w₁ = (.error e, w₁) := by
  have made := moves_ensureDir p o w rfl
  have straight := (upright_ensureDir p o w rfl).now ⟨upright, here⟩
  have paved := (moves_ensureDir_paved down o w rfl).now (linkless.above (below_tail _))
  rw [failed] at made straight paved
  have linkless' := linkless.paved paved
  have again := failed
  unfold ensureDir at failed
  rcases run_bind_error.1 failed with searched | ⟨found, w₀, searched, failed⟩
  · rwa [makeNearest_failed searched] at again ⊢
  · refine makeNearest_again (pairwise_ancestors p) (fun x hx usable missed there => ?_) searched failed
    obtain ⟨below, descends⟩ := Path.ancestors_place hx w.cwd
    have cwd : w₁.cwd = w.cwd := made.cwd
    rw [cwd] at there ⊢
    exact leadsToDir_of_made upright straight.1 straight.2 made.now (descends down)
      (linkless.above below) (linkless'.above below) usable missed there

theorem ensureDir_ok (run : (ensureDir p).run o w = (.ok (), w₁)) :
    (p.bytes = [] ∨ p.parent? = none) ∧ w₁ = w ∨ Stands w₁.volume w₁.cwd p := by
  by_cases top : p.bytes = [] ∨ p.parent? = none
  · rw [run_ensureDir_top top] at run
    cases run
    exact .inl ⟨top, rfl⟩
  refine .inr ?_
  obtain ⟨more, hmore⟩ : ∃ more, p.ancestors = p :: more := ⟨_, rfl⟩
  unfold ensureDir at run
  rw [hmore] at run
  obtain ⟨found, w₂, searched, run⟩ := run_bind_ok.1 run
  rw [run_makeNearest_cons, if_neg top] at searched
  cases hv : w.volume.makeDir w.cwd p with
  | ok v =>
    rw [hv] at searched
    cases searched
    cases run
    exact stands_of_makeDir hv
  | error y =>
    rw [hv] at searched
    simp only at searched
    split at searched
    · obtain ⟨passed, rfl, -⟩ := makeNearest_found searched
      rw [forM_append] at run
      obtain ⟨_, w₃, -, run⟩ := run_bind_ok.1 run
      obtain ⟨_, w₄, made, rest⟩ := run_bind_ok.1 run
      cases rest
      exact (ensureMade_ok made).1
    split at searched
    · rename_i there
      cases searched
      cases run
      exact stands_of_leadsToDir there.2
    · cases searched

/-- Once a directory has been made, its path leads to it, and making it again does nothing. -/
theorem ensureDir_stands (start : w.volume.lookup (startOf w.cwd p.bytes) = some .dir)
    (run : (ensureDir p).run o w = (.ok (), w₁)) :
    ∃ l, Opens w₁.volume w₁.cwd p l ∧ w₁.volume.lookup l = some .dir ∧
      ∀ o u, Opens u.volume u.cwd p l → u.volume.lookup l = some .dir →
        (ensureDir p).run o u = (.ok (), u) := by
  rcases ensureDir_ok run with ⟨top, rfl⟩ | ⟨usable, l, opens, dir⟩
  · have none : p.steps = [] := by
      refine Classical.byContradiction fun g => ?_
      have above := Path.parent_ne_none g
      exact top.elim above.1 above.2
    have opens : ∀ v cwd, Opens v cwd p (startOf cwd p.bytes) := fun v cwd =>
      opens_steps.2 ⟨0, Nat.zero_le _, by rw [none]; exact .done⟩
    exact ⟨_, opens _ _, start, fun _ _ _ _ => run_ensureDir_top top⟩
  · exact ⟨l, opens, dir, fun _ _ opens dir => run_ensureDir_there usable opens dir⟩

end Action
end PinnedDeps
