import PinnedDeps.Proofs.Action.Trail
import PinnedDeps.Proofs.Library.Replacing

/-!
Copies that succeed. Between directories that are reached without links a copy succeeds exactly if it
fits. Then the same file or link stands in its place, and everything else stands as before.
-/
namespace PinnedDeps

open PinnedDeps.Action Volume
open Bytes (ofText)

variable {o : Outside} {w w' : World} {v u : Volume} {cwd l : Location} {x : Entry}

theorem Entry.copied_ne_dir (h : x ≠ .dir) : x.copied ≠ .dir := by
  cases x with
  | dir => exact h
  | file f => simp [copied]
  | link t => simp [copied]

/-- A copy that is to be made: of the entry of a name in one directory, under its name in another. -/
structure Copy where
  src : Path
  dst : Path
  name : String

namespace Copy

def source (j : Copy) : Path := j.src / j.name

def target (j : Copy) : Path := j.dst / j.name

def origin (j : Copy) (cwd : Location) : Location := ofText j.name :: j.src.goal cwd

def place (j : Copy) (cwd : Location) : Location := ofText j.name :: j.dst.goal cwd

def make (j : Copy) : Action BuildError Unit := copyArtifact j.source j.target

/-- The entry can be copied: both directories are there, and nothing is wrong with the entry or with
what it is to replace. -/
structure Fits (j : Copy) (cwd : Location) (v : Volume) (x : Entry) : Prop where
  src : Direct v cwd j.src
  dst : Direct v cwd j.dst
  usable : checkPath j.source = .ok () ∧ checkPath j.target = .ok ()
  short : (ofText j.name).length ≤ nameLimit
  seen : v.lookup (j.origin cwd) = some x
  notDir : x ≠ .dir
  text : ∀ t, x = .link t → checkPath ⟨t⟩ = .ok ()
  free : v.lookup (j.place cwd) ≠ some .dir

/-- The entry has been copied, and nothing else has changed. -/
def Done (j : Copy) (cwd : Location) (x : Entry) (v u : Volume) : Prop :=
  ∀ l, u.lookup l = if l = j.place cwd then some x.copied else v.lookup l

variable {j : Copy}

theorem Fits.congr (h : j.Fits cwd v x) (dirs : Dirs v u)
    (seen : u.lookup (j.origin cwd) = v.lookup (j.origin cwd))
    (free : u.lookup (j.place cwd) ≠ some .dir) : j.Fits cwd u x :=
  { h with src := h.src.keep dirs, dst := h.dst.keep dirs, seen := seen.trans h.seen, free }

theorem Done.dirs (h : j.Done cwd x v u) (free : v.lookup (j.place cwd) ≠ some .dir) : Dirs v u := by
  intro l hl
  rw [h l, if_neg, hl]
  rintro rfl
  exact free hl

variable (named : IsName (ofText j.name))
include named

theorem goal_target (cwd : Location) : j.target.goal cwd = j.place cwd := Path.goal_div named cwd

theorem goal_source (cwd : Location) : j.source.goal cwd = j.origin cwd := Path.goal_div named cwd

theorem Fits.entryAt (h : j.Fits cwd v x) : v.entryAt cwd j.source = .ok (j.origin cwd, x) :=
  (entryAt_div named).2 ⟨h.usable.1, h.short, _, h.src.opens, rfl, h.seen⟩

/-- What is to be replaced is removed first. -/
theorem run_clear (dst : Direct w.volume w.cwd j.dst) (usable : checkPath j.target = .ok ())
    (short : (ofText j.name).length ≤ nameLimit) (free : w.volume.lookup (j.place w.cwd) ≠ some .dir) :
    ∃ w₁, (removeFileIfThere j.target).run o w = (.ok (), w₁) ∧ w₁.cwd = w.cwd ∧
      Dirs w.volume w₁.volume ∧
      ∀ l, w₁.volume.lookup l = if l = j.place w.cwd then none else w.volume.lookup l := by
  obtain ⟨w₁, cleared, moved, look⟩ :=
    run_removeFileIfThere_name (o := o) named usable short dst.opens free
  refine ⟨w₁, cleared, moved.cwd, fun l hl => ?_, look⟩
  rw [look, if_neg, hl]
  rintro rfl
  exact free hl

/-- A directory is not removed. -/
theorem not_dir_of_cleared {w₁ : World} (dst : Direct w.volume w.cwd j.dst)
    (usable : checkPath j.target = .ok ()) (short : (ofText j.name).length ≤ nameLimit)
    (cleared : (removeFileIfThere j.target).run o w = (.ok (), w₁)) :
    w.volume.lookup (j.place w.cwd) ≠ some .dir := by
  intro dir
  have refused := removeFile_eq named usable short dst.opens
  rw [show w.volume.lookup (ofText j.name :: j.dst.goal w.cwd) = some .dir from dir] at refused
  rw [run_removeFileIfThere, show w.volume.removeFile w.cwd j.target = _ from refused] at cleared
  cases cleared

/-- Where nothing stands, an entry that fits is put. -/
theorem Fits.run_putEntry (h : j.Fits w.cwd w.volume x)
    (vacant : w.volume.lookup (j.place w.cwd) = none) :
    ∃ w', (putEntry j.source j.target x).run o w = (.ok (), w') ∧ w'.cwd = w.cwd ∧
      j.Done w.cwd x w.volume w'.volume := by
  have root : j.place w.cwd ≠ [] := List.cons_ne_nil _ _
  cases x with
  | dir => exact absurd rfl h.notDir
  | link t =>
    have made : w.volume.makeLink w.cwd t j.target = .ok (w.volume.put (j.place w.cwd) (.link t)) := by
      unfold makeLink target
      rw [h.text t rfl, reachName_eq named h.usable.2 h.short h.dst.opens, Path.endsInSlash_div _ named]
      simp only [bind, Except.bind]
      rw [show w.volume.lookup (ofText j.name :: j.dst.goal w.cwd) = none from vacant]
      rfl
    refine ⟨w.set (w.volume.put (j.place w.cwd) (.link t)), ?_, rfl, lookup_put_if _ root _⟩
    unfold putEntry
    rw [run_permitted, run_change, made]
  | file f =>
    have seen : w.volume.stat w.cwd j.source = .ok (j.origin w.cwd, .file f) :=
      stat_eq named h.usable.1 h.short h.src.opens h.seen (by simp)
    have opened : w.volume.openFile w.cwd j.target f.mode false =
        .ok (j.place w.cwd, w.volume.put (j.place w.cwd) (.file ⟨[], f.mode, none⟩)) :=
      openFile_new named h.usable.2 h.short h.dst.opens f.mode false vacant
    let v₁ := w.volume.put (j.place w.cwd) (.file ⟨[], f.mode, none⟩)
    let v₂ := v₁.setMode (j.place w.cwd) f.mode
    refine ⟨((w.set v₁).set v₂).set (v₂.append (j.place w.cwd) f.bytes), ?_, rfl,
      lookup_written _ f.mode root f.bytes⟩
    show (copyFile j.source j.target).run o w = _
    rw [run_copyFile, seen]
    simp only
    rw [run_permitted, run_bind, run_changeAt, opened]
    rfl

variable (apart : j.src.goal w.cwd ≠ j.dst.goal w.cwd)
include apart

omit named in
theorem origin_ne_place : j.origin w.cwd ≠ j.place w.cwd := fun e => apart (List.cons.inj e).2

/-- A copy that fits is made. -/
theorem Fits.run_make (h : j.Fits w.cwd w.volume x) : ∃ w', j.make.run o w = (.ok (), w') ∧
    w'.cwd = w.cwd ∧ j.Done w.cwd x w.volume w'.volume := by
  have elsewhere := origin_ne_place apart
  obtain ⟨w₁, cleared, cwd, dirs, look⟩ := run_clear (o := o) named h.dst h.usable.2 h.short h.free
  have gone : w₁.volume.lookup (j.place w₁.cwd) = none := by rw [cwd, look, if_pos rfl]
  have fits : j.Fits w₁.cwd w₁.volume x := by
    rw [cwd]
    exact h.congr dirs (by rw [look, if_neg elsewhere]) (by rw [look, if_pos rfl]; simp)
  obtain ⟨w', put, cwd', done⟩ := fits.run_putEntry (o := o) named gone
  rw [cwd] at done
  refine ⟨w', run_mapError_ok.2 ?_, cwd'.trans cwd, fun l => (done l).trans ?_⟩
  · rw [run_replaceEntry_seen ⟨rfl, _, h.entryAt named⟩, run_bind_of_ok cleared, put]
  · split
    · rfl
    · rw [look, if_neg ‹_›]

/-- A copy that has been made fits. -/
theorem fits_of_make (clear : Unlinked (j.src.trail w.cwd) w.volume)
    (dst : Direct w.volume w.cwd j.dst) (run : j.make.run o w = (.ok (), w')) :
    ∃ x, j.Fits w.cwd w.volume x := by
  have elsewhere := origin_ne_place apart
  obtain ⟨M, installed⟩ := copyArtifact_installs named run
  have usable := (installed.valid j.name (by simp)).1
  obtain ⟨x, w₁, ⟨-, k, seen⟩, cleared, put⟩ := replaceEntry_ok (run_mapError_ok.1 run)
  obtain ⟨usable', short, e, opens, rfl, there⟩ := (entryAt_div named).1 seen
  have src := opens.direct clear
  obtain rfl := opens.unique src.opens
  have free := not_dir_of_cleared named dst usable short cleared
  obtain ⟨w₂, same, cwd, dirs, look⟩ := run_clear (o := o) named dst usable short free
  cases cleared.symm.trans same
  have able : ¬ Stuck o w₁.toView j.source j.target x := by
    have ends := putEntry_puts o j.source x (removeFileIfThere_vacates cleared)
    rw [put] at ends
    cases ends with
    | made able => exact able
  refine ⟨x, src, dst, ⟨usable', usable⟩, short, there, ?_, ?_, free⟩
  · rintro rfl
    refine able (.source (by simp) fun l f hf => ?_)
    have still : w₁.volume.lookup (j.origin w.cwd) = some .dir := by
      rw [look, if_neg elsewhere]
      exact there
    rw [cwd, show j.source = j.src / j.name from rfl,
      stat_eq named usable' short (src.keep dirs).opens still (by simp)] at hf
    cases hf
  · rintro t rfl
    exact Classical.byContradiction fun bad => able (.text bad)

omit apart in
/-- A copy that is not made has at most taken away what it was to replace. -/
theorem make_failed {e : BuildError} (dst : Direct w.volume w.cwd j.dst)
    (run : j.make.run o w = (.error e, w')) : (∃ cause, e = .copy j.source j.target cause) ∧
      w'.cwd = w.cwd ∧ Dirs w.volume w'.volume ∧ ∀ l, w'.volume.lookup l = w.volume.lookup l ∨
        l = j.place w.cwd ∧ w'.volume.lookup l = none := by
  obtain ⟨cause, rfl, stopped⟩ := run_mapError_error.1 run
  obtain ⟨cwd, leaves⟩ := replaceEntry_leaves stopped
  refine ⟨⟨cause, rfl⟩, cwd, ?_⟩
  rcases leaves.whole_or_erased with same | ⟨k, removable, gone⟩
  · rw [show w'.volume = _ from same]
    exact ⟨fun _ hl => hl, fun _ => .inl rfl⟩
  · obtain ⟨d, n, rfl, hL⟩ := removable.named
    obtain ⟨y, there, notDir⟩ := removable.there
    obtain ⟨-, -, e, opens, hLe⟩ := (reachName_div named).1 hL
    cases hLe
    obtain rfl := opens.unique dst.opens
    rw [show w'.volume = _ from gone]
    refine ⟨fun l hl => ?_, fun l => ?_⟩
    · rw [lookup_erase_ne, hl]
      rintro rfl
      rw [there] at hl
      exact notDir (Option.some.inj hl)
    · by_cases here : l = j.place w.cwd
      · subst here
        exact .inr ⟨rfl, (lookup_erase _ _ (List.cons_ne_nil _ _)).trans (if_pos rfl)⟩
      · exact .inl (lookup_erase_ne _ here)

end Copy
end PinnedDeps
