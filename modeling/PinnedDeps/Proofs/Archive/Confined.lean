import PinnedDeps.Proofs.Action.Making
import PinnedDeps.Proofs.Action.Parents
import PinnedDeps.Proofs.Action.Removal
import PinnedDeps.Proofs.Archive.Unpacking
import PinnedDeps.Proofs.Volume.Ground

/-!
Unpacking changes nothing outside its destination, whatever the archive holds. Every change is one
of an entry in a directory that was seen to lie inside, and it stays inside until it is made.
-/
namespace PinnedDeps

open Bytes (dot)
open PinnedDeps.Action Volume

namespace Unpack

variable {o : Machine} {w w' : World} {cwd top k l : Location} {n : Bytes} {dest p : Path} {m : Member}

theorem run_mustBeInside_world (dest p : Path) : ((mustBeInside dest p).run o w).2 = w := by
  unfold mustBeInside
  rw [run_bind, run_refusable, run_ask]
  cases w.volume.stat w.cwd p with
  | error e => rfl
  | ok x =>
    show ((_ : Unpacking Unit).run o w).2 = w
    rw [run_bind, run_refusable, run_ask]
    cases w.volume.stat w.cwd dest with
    | error e => rfl
    | ok y =>
      show ((if Below x.1 y.1 then _ else _ : Unpacking Unit).run o w).2 = w
      split <;> rfl

/-- What must be inside is there, and lies below the destination. -/
theorem mustBeInside_ok (h : (mustBeInside dest p).run o w = (.ok (), w')) :
    w' = w ∧ ∃ l x top x', w.volume.stat w.cwd p = .ok (l, x) ∧
      w.volume.stat w.cwd dest = .ok (top, x') ∧ Below l top := by
  have world := run_mustBeInside_world (o := o) (w := w) dest p
  rw [h] at world
  refine ⟨world, ?_⟩
  unfold mustBeInside at h
  obtain ⟨⟨l, x⟩, w₁, hp, h⟩ := run_bind_ok.1 h
  obtain ⟨⟨top, x'⟩, w₂, hd, h⟩ := run_bind_ok.1 h
  have hp := run_mapError_ok.1 hp
  rw [run_ask] at hp
  obtain ⟨seen, rfl⟩ := Prod.mk.inj hp
  have hd := run_mapError_ok.1 hd
  rw [run_ask] at hd
  obtain ⟨seen', rfl⟩ := Prod.mk.inj hd
  refine ⟨l, x, top, x', seen, seen', ?_⟩
  simp only at h
  split at h
  · assumption
  · cases h

section Put

variable (proper : Proper (n :: k))
include proper

/-- A change of the entry at a name keeps to the directory that the rest of the path leads to. -/
theorem moves_worked {f : Volume → Location → Except IoError Volume}
    (h : ∀ v u, f v cwd = .ok u → ∃ d m,
      reachName v cwd (Location.path (n :: k)) = .ok (.name d m) ∧ Worked top v d m u) :
    Moves cwd (Held cwd top k) (change f) := by
  refine moves_change (Held.refl cwd top k) fun v u hu => ?_
  obtain ⟨d, m, hL, worked⟩ := h v u hu
  obtain ⟨e, opens, hLe⟩ := reachName_path proper hL
  cases hLe
  exact worked.held opens

theorem moves_makeDirPath : Moves cwd (Held cwd top k)
    (change fun v cwd => v.makeDir cwd (Location.path (n :: k))) := by
  refine moves_worked proper fun v u hu => ?_
  obtain ⟨d, m, hL, hn, rfl⟩ := makeDir_ok hu
  exact ⟨d, m, hL, .put .dir hn⟩

theorem moves_makeLinkPath (t : Bytes) : Moves cwd (Held cwd top k)
    (change fun v cwd => v.makeLink cwd t (Location.path (n :: k))) := by
  refine moves_worked proper fun v u hu => ?_
  obtain ⟨d, m, hL, _, hn, rfl⟩ := makeLink_ok hu
  exact ⟨d, m, hL, .put _ hn⟩

theorem moves_removePath : Moves cwd (Held cwd top k)
    (removeFileIfThere (Location.path (n :: k))) := by
  refine moves_removal (Held.refl cwd top k) Held.trans (moves_worked proper fun v u hu => ?_)
  obtain ⟨d, m, x, hL, _, hx, hd, rfl⟩ := removeFile_ok hu
  exact ⟨d, m, hL, .erased hx hd⟩

theorem moves_replacing {α : Type} {a : Action IoError α} (h : Moves cwd (Held cwd top k) a) :
    Moves cwd (Held cwd top k) (replacing (Location.path (n :: k)) a) := by
  refine moves_mapError _ (moves_tryCatch Held.trans h fun e => ?_)
  split
  · exact moves_bind Held.trans (moves_removePath proper) fun _ => h
  · exact moves_throw (Held.refl cwd top k) e

theorem moves_openNewPath (mode : Nat) : Moves cwd (Held cwd top k)
    (changeAt fun v cwd => v.openNew cwd (Location.path (n :: k)) mode) := by
  rintro o w rfl
  rw [run_changeAt]
  cases hv : w.volume.openNew w.cwd (Location.path (n :: k)) mode with
  | error e => exact .refl (Held.refl _ _ _) w
  | ok x =>
    obtain ⟨l, u⟩ := x
    obtain ⟨d, m, rfl, hL, hn, rfl⟩ := openNew_ok hv
    obtain ⟨e, opens, hLe⟩ := reachName_path proper hL
    cases hLe
    exact .set ((Worked.put _ hn).held opens)

/-- A file that was made new is empty, has one name and stands where its path leads to. -/
theorem openNewPath_ok {mode : Nat}
    (h : (changeAt fun v cwd => v.openNew cwd (Location.path (n :: k)) mode).run o w = (.ok l, w')) :
    ∃ d, l = n :: d ∧ Opens w'.volume w'.cwd (Location.path k) d ∧
      w'.volume.lookup l = some (.file ⟨[], mode, none⟩) := by
  rw [run_changeAt] at h
  cases hv : w.volume.openNew w.cwd (Location.path (n :: k)) mode with
  | error e =>
    rw [hv] at h
    cases h
  | ok x =>
    obtain ⟨l', u⟩ := x
    rw [hv] at h
    cases h
    obtain ⟨d, m, rfl, hL, hn, rfl⟩ := openNew_ok hv
    obtain ⟨e, opens, hLe⟩ := reachName_path proper hL
    cases hLe
    exact ⟨d, rfl, opens.keep (keeps_put _ hn),
      lookup_put w.volume _ _ (by simp) |>.trans (if_pos rfl)⟩

theorem moves_makeDirAtPath : Moves cwd (Held cwd top k) (makeDirAt (Location.path (n :: k))) := by
  refine moves_tryCatch Held.trans (moves_mapError _ (moves_makeDirPath proper)) fun e => ?_
  refine moves_bind Held.trans (moves_look (Held.refl cwd top k) _) fun x => ?_
  split
  · exact moves_pure (Held.refl cwd top k) _
  · exact moves_throw (Held.refl cwd top k) _

/-- What has been put in place of an entry is a new file all the same. -/
theorem replacingOpenNew_ok {mode : Nat} (h : (replacing (Location.path (n :: k))
      (.changeAt fun v cwd => v.openNew cwd (Location.path (n :: k)) mode)).run o w = (.ok l, w')) :
    ∃ d, l = n :: d ∧ Opens w'.volume w'.cwd (Location.path k) d ∧
      w'.volume.lookup l = some (.file ⟨[], mode, none⟩) := by
  have h := run_mapError_ok.1 h
  rw [run_tryCatch] at h
  rcases first : (changeAt fun v cwd => v.openNew cwd (Location.path (n :: k)) mode).run o w
    with ⟨e | l', w₁⟩
  · rw [first] at h
    simp only at h
    split at h
    · obtain ⟨_, w₂, _, second⟩ := run_bind_ok.1 h
      exact openNewPath_ok proper second
    · cases h
  · rw [first] at h
    cases h
    exact openNewPath_ok proper first

theorem moves_putFilePath (body : Body) (mode : Option Nat) :
    Moves cwd (Held cwd top k) (putFile (Location.path (n :: k)) body mode) := by
  rintro o w rfl
  have opening : Moved (Held w.cwd top k) w _ :=
    moves_replacing proper (moves_openNewPath proper plainMode) o w rfl
  refine opening.bind Held.trans fun l w₁ opened => ?_
  obtain ⟨d, rfl, opens, new⟩ := replacingOpenNew_ok proper opened
  rw [opened] at opening
  -- The file stays at its place, whatever is done to its bytes.
  let written := w₁.set (w₁.volume.append (n :: d) body.bytes)
  have opens₁ : Opens w₁.volume w.cwd (Location.path k) d := opening.cwd ▸ opens
  have opens₂ : Opens written.volume w.cwd (Location.path k) d := opens₁.keep (keeps_adjust _ _ _)
  have filed : written.volume.lookup (n :: d) = some (.file ⟨body.bytes, plainMode, none⟩) :=
    (lookup_adjust_alone _ new rfl).trans (if_pos rfl)
  have first : Moved (Held w.cwd top k) w₁ written := .set (held_adjust _ opens₁ new rfl)
  refine first.trans Held.trans ?_
  by_cases cut : body.cut = true
  · simp only [cut, if_true]
    exact .refl (Held.refl _ _ _) _
  · simp only [cut]
    cases mode with
    | none => exact .refl (Held.refl _ _ _) _
    | some m => exact .set (held_adjust _ opens₂ filed rfl)

end Put

theorem moves_linkText (target : Option Bytes) {R : Volume → Volume → Prop} (hr : ∀ v, R v v) :
    Moves cwd R (linkText target) := by
  unfold linkText
  split
  · exact moves_throw hr _
  · exact moves_throw hr _
  · exact moves_pure hr _

/-- All members of an archive in their order. -/
def putAll (a : Archive) (dest : Path) : Unpacking Unit := do
  (a.members.filter (!isLate ·)).forM (putMember dest)
  if !a.intact then throw .damaged
  ((a.members.filter isLate).mergeSort fun a b => b.path ≤ a.path).forM (putMember dest)

theorem moves_putAll {R : Volume → Volume → Prop} (hr : ∀ v, R v v)
    (ht : ∀ u v x, R u v → R v x → R u x) (h : ∀ m, Moves cwd R (putMember dest m)) (a : Archive) :
    Moves cwd R (putAll a dest) := by
  have put : ∀ ms : List Member, Moves cwd R (ms.forM (putMember dest)) :=
    fun ms => moves_forM hr ht fun m _ => h m
  refine moves_bind ht (put _) fun _ => ?_
  simp only
  split
  · exact moves_bind ht (moves_throw hr _) fun _ => put _
  · exact put _

/-- The destination by its location, if it is there. -/
def settled (v : Volume) (cwd : Location) (dest : Path) : Path :=
  match v.stat cwd dest with
  | .ok (l, _) => Location.path l
  | .error _ => dest

theorem run_unpack_seen (a : Archive) (there : (w.volume.entryAt w.cwd dest).isOk = true) :
    (unpack a dest).run o w = (putAll a (settled w.volume w.cwd dest)).run o w := by
  unfold unpack
  rw [run_bind, run_look]
  simp only [there, Bool.not_true, Bool.false_eq_true, if_false]
  rw [run_bind, run_look]
  rfl

theorem run_unpack_unseen (a : Archive) (unseen : (w.volume.entryAt w.cwd dest).isOk = false) :
    (unpack a dest).run o w = (do
      refusable (Action.ensureDir dest)
      let dest ← Action.look (settled · · dest)
      putAll a dest : Unpacking Unit).run o w := by
  unfold unpack
  rw [run_bind, run_look]
  simp only [unseen, Bool.not_false, if_true]
  rfl

/-- Where the destination is there, the members are put into it. -/
theorem run_unpack_made (a : Archive) (made : (Action.ensureDir dest).run o w = (.ok (), w)) :
    (unpack a dest).run o w = (putAll a (settled w.volume w.cwd dest)).run o w := by
  cases there : (w.volume.entryAt w.cwd dest).isOk with
  | true => exact run_unpack_seen a there
  | false =>
    have made : (refusable (Action.ensureDir dest)).run o w = (.ok (), w) := run_mapError_ok.2 made
    rw [run_unpack_unseen a there, run_bind_of_ok made, run_bind, run_look]

/-- Where the destination need not be made, the members are put or nothing happens. -/
theorem run_unpack_there (a : Archive) (stays : ((Action.ensureDir dest).run o w).2 = w) :
    ((unpack a dest).run o w).2 = w ∨
      (unpack a dest).run o w = (putAll a (settled w.volume w.cwd dest)).run o w := by
  rcases run : (Action.ensureDir dest).run o w with ⟨e | _, w₁⟩
  · rw [run] at stays
    cases there : (w.volume.entryAt w.cwd dest).isOk with
    | true => exact .inr (run_unpack_seen a there)
    | false =>
      refine .inl ?_
      rw [run_unpack_unseen a there, run_bind, run_refusable, run]
      exact stays
  · rw [run] at stays
    obtain rfl : w₁ = w := stays
    exact .inr (run_unpack_made a run)

/-- Looking for what is missing changes nothing and finds paths out of the list. -/
theorem missingAbove_ok {qs missing found : List Path}
    (h : (missingAbove qs missing).run o w = (.ok found, w')) :
    w' = w ∧ ∀ q ∈ found, q ∈ qs ∨ q ∈ missing := by
  induction qs generalizing missing with
  | nil =>
    cases h
    exact ⟨rfl, fun q hq => .inr hq⟩
  | cons x above ih =>
    rw [missingAbove, run_bind, run_look] at h
    simp only at h
    split at h
    · cases h
      exact ⟨rfl, fun q hq => .inr hq⟩
    · obtain ⟨rfl, hfound⟩ := ih h
      refine ⟨rfl, fun q hq => ?_⟩
      rcases hfound q hq with g | g
      · exact .inl (by simp [g])
      · rcases List.mem_cons.1 g with rfl | g
        · exact .inl (by simp)
        · exact .inr g

theorem moves_missingAbove {R : Volume → Volume → Prop} (hr : ∀ v, R v v)
    (ht : ∀ u v x, R u v → R v x → R u x) (qs missing : List Path) :
    Moves cwd R (missingAbove qs missing) := by
  induction qs generalizing missing with
  | nil => exact moves_pure hr _
  | cons x above ih =>
    rw [missingAbove]
    refine moves_bind ht (moves_look hr _) fun b => ?_
    split
    · exact moves_pure hr _
    · exact ih _

theorem isName_of_component {q : Path} {s : Bytes} (h : .name s ∈ q.components) : IsName s := by
  have named : ∀ segs : List Bytes, (∀ z ∈ segs, z ∈ q.segments) →
      .name s ∈ (segs.filter (· ≠ [dot])).map Path.componentOfSegment → IsName s := by
    intro segs hsegs hs
    obtain ⟨z, hz, hzs⟩ := List.mem_map.1 hs
    obtain ⟨hz, notDot⟩ := List.mem_filter.1 hz
    have segment := isSegment_of_mem (hsegs z hz)
    unfold Path.componentOfSegment at hzs
    split at hzs
    · cases hzs
    · cases hzs
      exact ⟨segment.1, segment.2, by simpa using notDot, ‹_›⟩
  unfold Path.components at h
  simp only at h
  split at h
  · exact named q.segments (fun _ hz => hz) (by simpa using h)
  split at h
  · exact named q.segments (fun _ hz => hz) (by simpa using h)
  · exact named q.segments (fun _ hz => hz) h

theorem isName_of_names {ns : List Bytes} {s : Bytes} (h : m.names? = some ns) (hs : s ∈ ns) :
    IsName s := by
  unfold Member.names? at h
  simp only at h
  split at h
  · cases h
  · cases h
    obtain ⟨c, hc, hcs⟩ := List.mem_filterMap.1 hs
    cases c with
    | name n =>
      cases hcs
      exact isName_of_component (List.mem_filter.1 hc).1
    | root => cases hcs
    | current => cases hcs
    | up => cases hcs

/-- Where a member goes, as a location below the destination. -/
theorem path_names (top : Location) (ns : List Bytes) :
    (Location.path top).extend (ns.map .name) = Location.path (ns.reverse ++ top) := by
  rw [Location.path_append, List.reverse_reverse]

theorem names_last {ns : List Bytes} (h : m.names? = some ns) : ∃ init x, ns = init ++ [x] := by
  have some_ : ns ≠ [] := by
    rintro rfl
    exact absurd h (by simp [Member.names?])
  exact ⟨_, _, (List.dropLast_concat_getLast some_).symm⟩

theorem putMember_nameless (h : m.names? = none) : putMember dest m = pure () := by
  unfold putMember
  rw [h]

theorem proper_named {init : List Bytes} {x : Bytes} (usable : Usable top)
    (h : m.names? = some (init ++ [x])) : Proper (x :: (init.reverse ++ top)) := by
  intro z hz
  rw [← List.cons_append] at hz
  rcases List.mem_append.1 hz with hz | hz
  · exact isName_of_names h (by simpa [or_comm] using hz)
  · exact usable.proper z hz

/-- A member is put at its names, once the directories above it are there. -/
theorem putMember_named {init : List Bytes} {x : Bytes} (h : m.names? = some (init ++ [x])) :
    putMember (Location.path top) m = (do
      ensureParents (Location.path top) (Location.path (init.reverse ++ top))
      mustBeInside (Location.path top) (Location.path (init.reverse ++ top))
      putKind (Location.path top) (Location.path (x :: (init.reverse ++ top))) m) := by
  unfold putMember
  rw [h]
  simp only [List.dropLast_concat, path_names, List.reverse_append, List.reverse_cons, List.reverse_nil,
    List.nil_append, List.cons_append]

section Destination

variable (usable : Usable top)
include usable

/-- What must be inside a destination on its ground is seen inside it. -/
theorem seen_of_mustBeInside (ground : Ground top w.volume)
    (h : (mustBeInside (Location.path top) p).run o w = (.ok (), w')) :
    w' = w ∧ ∃ l x, w.volume.stat w.cwd p = .ok (l, x) ∧ Below l top := by
  obtain ⟨rfl, l, x, top', x', hp, hd, hb⟩ := mustBeInside_ok h
  obtain rfl := ground.stat_path usable hd
  exact ⟨rfl, l, x, hp, hb⟩

/-- A further name is given to a file inside the destination, or to a link. -/
theorem moves_hardLinkPath (proper : Proper (n :: k)) (src : Path) : Moves cwd (Held cwd top k) (do
    mustBeInside (Location.path top) src
    refusable (.change fun v cwd => v.hardLink cwd src (Location.path (n :: k)))) := by
  rintro o w rfl
  rw [run_bind]
  have world := run_mustBeInside_world (o := o) (w := w) (Location.path top) src
  rcases run : (mustBeInside (Location.path top) src).run o w with ⟨e | _, w₁⟩
  · rw [run] at world
    obtain rfl : w₁ = w := world
    exact .refl (Held.refl _ _ _) _
  obtain ⟨rfl, l, x, top', x', hp, hd, hb⟩ := mustBeInside_ok run
  simp only
  rw [run_refusable, run_change]
  cases hv : w₁.volume.hardLink w₁.cwd src (Location.path (n :: k)) with
  | error e => exact .refl (Held.refl _ _ _) _
  | ok u =>
    obtain ⟨from_, y, d, m, hs, hL, hn, notDir, rfl⟩ := hardLink_ok hv
    obtain ⟨e, opens, hLe⟩ := reachName_path proper hL
    cases hLe
    refine .set fun ground aimed => ?_
    obtain rfl := ground.stat_path usable hd
    have there : w₁.volume.lookup from_ = some y := by
      obtain ⟨_, _, rfl, h⟩ := entryAt_ok.1 hs
      exact h
    cases y with
    | dir => exact absurd rfl notDir
    | file f =>
      have same := stat_of_entryAt hs (by simp)
      rw [hp] at same
      obtain ⟨rfl, rfl⟩ : l = from_ ∧ x = .file f := by
        cases same
        exact ⟨rfl, rfl⟩
      exact (Worked.shared there hb hn).held opens ground aimed
    | link t =>
      rw [addName_link there]
      exact (Worked.put _ hn).held opens ground aimed

theorem moves_putKindPath (proper : Proper (n :: k)) (m : Member) :
    Moves cwd (Held cwd top k) (putKind (Location.path top) (Location.path (n :: k)) m) := by
  unfold putKind
  split
  · exact moves_makeDirAtPath proper
  · exact moves_putFilePath proper _ _
  · refine moves_bind Held.trans (moves_linkText _ (Held.refl _ _ _)) fun t => ?_
    exact moves_replacing proper (moves_makeLinkPath proper t)
  · refine moves_bind Held.trans (moves_linkText _ (Held.refl _ _ _)) fun t => ?_
    exact moves_hardLinkPath usable proper _
  · exact moves_pure (Held.refl _ _ _) _

/-- A directory above a member is made in a directory that lies inside. -/
theorem moves_ensureParent {i : Location} (proper : Proper i) : Moves cwd (Builds top) (do
    ((Location.path i).parent?).forM (mustBeInside (Location.path top))
    refusable (Action.ensureDir (Location.path i))) := by
  cases i with
  | nil =>
    have root : (Location.path []).parent? = none := by decide
    have nothing : ∀ o w, (Action.ensureDir (Location.path [])).run o w = (.ok (), w) := fun _ _ => rfl
    rintro o w rfl
    rw [root]
    show Moved _ w ((Action.ensureDir (Location.path [])).run o w).2
    rw [nothing]
    exact .refl (Builds.refl _) w
  | cons n k =>
    rintro o w rfl
    rw [proper.parent_path]
    show Moved _ w ((mustBeInside (Location.path top) (Location.path k) >>= _).run o w).2
    rw [run_bind]
    have world := run_mustBeInside_world (o := o) (w := w) (Location.path top) (Location.path k)
    rcases run : (mustBeInside (Location.path top) (Location.path k)).run o w with ⟨e | _, w₁⟩
    · rw [run] at world
      obtain rfl : w₁ = w := world
      exact .refl (Builds.refl _) _
    obtain rfl : w₁ = w := by rw [run] at world; exact world
    have founded : Moves w₁.cwd (Founded w₁.cwd top k) (Action.ensureDir (Location.path (n :: k))) := by
      refine moves_ensureDir_of (Founded.refl _ _ _) Founded.trans fun q hq v u hv => ?_
      obtain ⟨i, hb, rfl⟩ := proper.mem_ancestors_path hq
      exact .makeDir proper hb hv
    refine (founded o w₁ rfl).imp fun u hu ground => ?_
    obtain ⟨_, seen⟩ := seen_of_mustBeInside usable ground run
    obtain ⟨within, ground, _⟩ := hu ground seen
    exact ⟨within, ground⟩

theorem moves_ensureParents {j : Location} (proper : Proper j) :
    Moves cwd (Builds top) (ensureParents (Location.path top) (Location.path j)) := by
  refine moves_bind_of (Q := fun qs => ∀ q ∈ qs, q ∈ (Location.path j).ancestors) Builds.trans
    (moves_missingAbove (Builds.refl _) Builds.trans _ _) ?_ fun found hfound => ?_
  · intro o w qs w' run q hq
    simpa using (missingAbove_ok run).2 q hq
  · refine moves_forM (Builds.refl _) Builds.trans fun q hq => ?_
    obtain ⟨i, hb, rfl⟩ := proper.mem_ancestors_path (hfound q hq)
    exact moves_ensureParent usable (proper.below hb)

theorem moves_putMemberPath (m : Member) :
    Moves cwd (Builds top) (putMember (Location.path top) m) := by
  cases hm : m.names? with
  | none =>
    rw [putMember_nameless hm]
    exact moves_pure (Builds.refl _) _
  | some ns =>
    obtain ⟨init, x, rfl⟩ := names_last hm
    have proper := proper_named usable hm
    rw [putMember_named hm]
    refine moves_bind Builds.trans (moves_ensureParents usable proper.tail) fun _ => ?_
    rintro o w rfl
    rw [run_bind]
    have world := run_mustBeInside_world (o := o) (w := w) (Location.path top)
      (Location.path (init.reverse ++ top))
    rcases run : (mustBeInside (Location.path top) (Location.path (init.reverse ++ top))).run o w with
      ⟨e | _, w₁⟩
    · rw [run] at world
      obtain rfl : w₁ = w := world
      exact .refl (Builds.refl _) _
    obtain rfl : w₁ = w := by rw [run] at world; exact world
    refine (moves_putKindPath usable proper m o w₁ rfl).imp fun u hu ground => ?_
    obtain ⟨_, seen⟩ := seen_of_mustBeInside usable ground run
    obtain ⟨within, ground, _⟩ := hu ground (Seen.aimed seen)
    exact ⟨within, ground⟩

end Destination

section Unusable

variable {x : IoError} (refused : checkPath dest = .error x)
include refused

theorem stat_refused (v : Volume) (cwd : Location) : v.stat cwd dest = .error x := by
  unfold stat reach
  rw [refused]
  rfl

theorem mustBeInside_refused : ∃ e, (mustBeInside dest p).run o w = (.error e, w) := by
  have world := run_mustBeInside_world (o := o) (w := w) dest p
  rcases run : (mustBeInside dest p).run o w with ⟨e | _, w₁⟩
  · rw [run] at world
    obtain rfl : w₁ = w := world
    exact ⟨e, rfl⟩
  · obtain ⟨_, _, _, _, _, _, hd, _⟩ := mustBeInside_ok run
    rw [stat_refused refused] at hd
    cases hd

end Unusable

theorem ensureDir_refused {x : IoError} (refused : checkPath dest = .error x) :
    ((Action.ensureDir dest).run o w).2 = w := by
  by_cases top : dest.bytes = [] ∨ dest.parent? = none
  · rw [run_ensureDir_top top]
  have known : x ≠ .system .noEntry ∧ x ≠ .system .alreadyExists := by
    unfold checkPath at refused
    split at refused
    · cases refused
      exact ⟨by decide, by decide⟩
    rw [if_neg fun h => top (.inl h)] at refused
    split at refused
    · cases refused
      exact ⟨by decide, by decide⟩
    · cases refused
  have stays : w.volume.makeDir w.cwd dest = .error x := by
    unfold makeDir reachName
    rw [refused]
    rfl
  obtain ⟨more, hmore⟩ : ∃ more, dest.ancestors = dest :: more := ⟨_, rfl⟩
  unfold Action.ensureDir
  rw [hmore, run_bind, run_makeNearest_cons, if_neg top, stays]
  simp only [if_neg known.1, known.2, false_and, if_false]

/-- Below a path that cannot be used nothing is put. -/
theorem moves_putMember_refused {x : IoError} (refused : checkPath dest = .error x) (m : Member) :
    Moves cwd Eq (putMember dest m) := by
  have ht : ∀ u v x : Volume, u = v → v = x → u = x := fun _ _ _ h g => h.trans g
  unfold putMember
  split
  · exact moves_pure Eq.refl _
  rename_i ns _
  refine moves_bind ht (moves_bind ht (moves_missingAbove Eq.refl ht _ _) fun qs => ?_) fun _ => ?_
  · refine moves_forM Eq.refl ht fun q _ => ?_
    intro o w _
    cases hq : q.parent? with
    | none =>
      show Moved Eq w ((refusable (Action.ensureDir q)).run o w).2
      rw [run_refusable, run_ensureDir_top (.inr hq)]
      exact .refl Eq.refl w
    | some above =>
      obtain ⟨e, run⟩ := mustBeInside_refused (o := o) (w := w) (p := above) refused
      show Moved Eq w ((mustBeInside dest above >>= _).run o w).2
      rw [run_bind_of_error run]
      exact .refl Eq.refl w
  · intro o w _
    obtain ⟨e, run⟩ := mustBeInside_refused (o := o) (w := w)
      (p := dest.extend (ns.dropLast.map .name)) refused
    rw [run_bind_of_error run]
    exact .refl Eq.refl w

/-- Into a directory that is there, the members are put by its location. -/
theorem run_unpack_opens (a : Archive) (checked : checkPath dest = .ok ())
    (opens : Opens w.volume w.cwd dest top) (there : w.volume.lookup top = some .dir) :
    (unpack a dest).run o w = (putAll a (Location.path top)).run o w := by
  obtain ⟨-, seen⟩ := makeDir_exists checked opens there
  have found : settled w.volume w.cwd dest = Location.path top := by
    unfold settled
    unfold leadsToDir at seen
    split at seen
    · rename_i l hl
      rw [hl, opens.stat_eq hl]
    · cases seen
  rw [run_unpack_made a (run_ensureDir_there checked opens there), found]

/-- Unpacked into a directory, no archive changes anything outside it. -/
theorem unpack_within (a : Archive) (ground : Ground top w.volume) (usable : Usable top)
    (opens : Opens w.volume w.cwd dest top) :
    Moved (fun v u => Within top v u ∧ Ground top u) w ((unpack a dest).run o w).2 := by
  have still : Moved (fun v u => Within top v u ∧ Ground top u) w w :=
    ⟨rfl, ⟨.refl top _, ground⟩, [], rfl, by simp⟩
  rcases checked : checkPath dest with x | _
  · -- The destination stays as it is written, and nothing counts as inside it.
    have same : settled w.volume w.cwd dest = dest := by
      unfold settled
      rw [stat_refused checked]
    rcases run_unpack_there (o := o) a (ensureDir_refused checked) with run | run
    · rw [run]
      exact still
    · rw [run, same]
      have put : Moved Eq w _ := moves_putAll Eq.refl (fun _ _ _ h g => h.trans g)
        (moves_putMember_refused checked) a o w rfl
      exact put.imp fun u hu => hu ▸ still.now
  · rw [run_unpack_opens a checked opens ground.there]
    have put := moves_putAll (Builds.refl top) Builds.trans
      (moves_putMemberPath usable) a o w rfl
    exact put.imp fun u hu => hu ground

end Unpack
end PinnedDeps
