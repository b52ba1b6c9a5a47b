import PinnedDeps.Archive.Unpack
import PinnedDeps.Proofs.Action.Run
import PinnedDeps.Proofs.Volume.Outcome

/-!
Putting members where the directory above them is there already. A member that finds its place free
goes there in one step, or in two for a file with bytes.
-/
namespace PinnedDeps.Unpack

open Volume PinnedDeps.Action

variable {o : Machine} {w : World} {dest parent p : Path} {m : Member} {v : Volume}
  {l top : Location} {e e' : Entry}

theorem run_refusable {α : Type} (a : Action IoError α) : (refusable a).run o w =
    ((a.run o w).1.mapError .refused, (a.run o w).2) := rfl

theorem run_refusable_ask {α : Type} {f : Volume → Location → Except IoError α} {x : α}
    (h : f w.volume w.cwd = .ok x) : (refusable (ask f)).run o w = (.ok x, w) := by
  rw [run_refusable, run_ask, h]
  rfl

theorem run_mustBeInside (hp : w.volume.stat w.cwd p = .ok (l, e))
    (hd : w.volume.stat w.cwd dest = .ok (top, e')) (h : Below l top) :
    (mustBeInside dest p).run o w = (.ok (), w) := by
  unfold mustBeInside
  rw [run_bind_of_ok (run_refusable_ask hp), run_bind_of_ok (run_refusable_ask hd)]
  simp only [if_pos h]
  rfl

theorem run_ensureParents (h : (w.volume.entryAt w.cwd parent).isOk = true) :
    (ensureParents dest parent).run o w = (.ok (), w) := by
  obtain ⟨more, hmore⟩ : ∃ more, parent.ancestors = parent :: more := ⟨_, rfl⟩
  have nearest : (missingAbove parent.ancestors []).run o w = (.ok [], w) := by
    rw [hmore, missingAbove, run_bind, run_look]
    simp only [h, if_true]
    rfl
  unfold ensureParents
  rw [run_bind_of_ok nearest]
  rfl

/-- Where the directory above it is there and inside, a member is put at its names. -/
theorem run_putMember (ns : List Bytes) (hm : m.names? = some ns)
    (hparent : dest.extend (ns.dropLast.map .name) = parent)
    (there : w.volume.entryAt w.cwd parent = .ok (l, .dir))
    (hd : w.volume.stat w.cwd dest = .ok (top, e')) (h : Below l top) :
    (putMember dest m).run o w = (putKind dest (dest.extend (ns.map .name)) m).run o w := by
  have seen := stat_of_entryAt there (by simp)
  unfold putMember
  rw [hm]
  simp only [hparent]
  rw [run_bind_of_ok (run_ensureParents (by rw [there]; rfl)),
    run_bind_of_ok (run_mustBeInside seen hd h)]

theorem run_makeDirAt (h : w.volume.makeDir w.cwd p = .ok v) :
    (makeDirAt p).run o w = (.ok (), w.set v) := by
  unfold makeDirAt
  rw [run_tryCatch, run_refusable, run_change, h]
  rfl

theorem run_putFile {b : Bytes} (h : w.volume.openNew w.cwd p plainMode = .ok (l, v)) :
    (putFile p ⟨b, false⟩ none).run o w = (.ok (), (w.set v).set (v.append l b)) := by
  have opened : (replacing p (.changeAt fun v cwd => v.openNew cwd p plainMode)).run o w =
      (.ok l, w.set v) := by
    unfold replacing
    rw [run_refusable, run_tryCatch, run_changeAt, h]
    rfl
  unfold putFile
  rw [run_bind_of_ok opened]
  rfl

/-- Below a directory that is there, the members are put one after another. -/
theorem run_unpack {a : Archive} (h : w.volume.entryAt w.cwd dest = .ok (l, .dir)) :
    (unpack a dest).run o w = (do
      (a.members.filter (!isLate ·)).forM (putMember l.path)
      if !a.intact then throw UnpackError.damaged
      ((a.members.filter isLate).mergeSort fun a b => b.path ≤ a.path).forM
        (putMember l.path)).run o w := by
  have there : (w.volume.entryAt w.cwd dest).isOk = true := by
    rw [h]
    rfl
  have seen : w.volume.stat w.cwd dest = .ok (l, .dir) := stat_of_entryAt h (by simp)
  unfold unpack
  rw [run_bind, run_look]
  simp only [there, Bool.not_true, Bool.false_eq_true, if_false]
  rw [run_bind, run_look]
  simp only [seen]

end PinnedDeps.Unpack
