import PinnedDeps.Proofs.Action.Making
import PinnedDeps.Proofs.Action.Removal
import PinnedDeps.Proofs.Source.Marker
import PinnedDeps.Proofs.Source.Places

/-!
The directory of dependencies of an acquisition, around which a volume stays as it was at the start,
but for directories on the way to it.
-/
namespace PinnedDeps

open Bytes (ofText slash)
open Volume PinnedDeps.Action

/-- A directory that may have to be made yet, in a volume that has nothing inside it. -/
structure Site where
  deps : Path
  cwd : Location
  start : Volume
  base : Location
  names : List Bytes
  way : Way start cwd deps base names
  empty : ∀ l, Inside l (names.reverse ++ base) → start.lookup l = none

namespace Site

variable {x : Site} {v u : Volume}

def top (x : Site) : Location := x.names.reverse ++ x.base

/-- Around the directory all is as at the start, but for directories on the way to it. -/
def Around (x : Site) (v : Volume) : Prop :=
  ∀ l, ¬ Inside l x.top → v.lookup l = x.start.lookup l ∨
    x.start.lookup l = none ∧ v.lookup l = some .dir ∧ Below x.top l

theorem Around.within (h : x.Around v) (g : Within x.top v u) : x.Around u := by
  intro l hl
  rw [g l hl]
  exact h l hl

theorem Around.paved (h : x.Around v) (g : Paved x.top v u) : x.Around u := by
  intro l hl
  rcases g l with e | ⟨hn, hd, hb⟩
  · rw [e]
    exact h l hl
  · rcases h l hl with e | ⟨_, e, _⟩
    · exact .inr ⟨e ▸ hn, hd, hb⟩
    · rw [hn] at e
      cases e

theorem Around.way (h : x.Around v) : Way v x.cwd x.deps x.base x.names := by
  have same : ∀ l e, x.start.lookup l = some e → v.lookup l = some e := by
    intro l e he
    have outside : ¬ Inside l x.top := by
      intro hi
      rw [x.empty l hi] at he
      cases he
    rcases h l outside with g | ⟨g, _, _⟩
    · rw [g, he]
    · rw [he] at g
      cases g
  obtain ⟨n, pre, hn, hp, hl⟩ := x.way.leads
  refine ⟨x.way.usable, ⟨n, pre, hn, hp, hl.keep fun l e he _ => same l e he⟩,
    same _ _ x.way.there, x.way.steps, fun l hb hi => ?_, x.way.ends⟩
  rcases h l fun g => g.not_above hb with g | ⟨_, g, _⟩
  · rw [g]
    exact x.way.free l hb hi
  · exact .inr g

theorem Around.eq_top {e : Location} (h : x.Around v) (g : Opens v x.cwd x.deps e) : e = x.top :=
  (h.way.opened g).1

/-- Once the directory is there, it is reached without passing anything in it. -/
theorem Around.fixed (h : x.Around v) (g : Opens v x.cwd x.deps x.top) :
    Fixed v x.cwd x.deps x.top := by
  intro u hu
  have dirs := (h.way.opened g).2
  refine ((h.within hu).way.laid fun l hb hi => ?_).opens
  rw [hu l fun hl => hl.not_above hb]
  exact dirs l hb hi

end Site

namespace Source

variable {s : Source}

/-- The names of the source are plain, and paths to all its files can be used. -/
structure Plain (s : Source) (deps : Path) : Prop extends Named s where
  short : (ofText s.archiveName).length ≤ nameLimit
  usable : checkPath (s.marker deps) = .ok ()

theorem Plain.archive_usable {deps : Path} (h : s.Plain deps) :
    checkPath (s.archivePath deps) = .ok () := by
  obtain ⟨m, hm⟩ := Path.bytes_div deps
  obtain ⟨m', hm'⟩ := Path.bytes_div (s.srcDir deps)
  have src : (s.srcDir deps).bytes = deps.bytes ++ m ++ (ofText s.stem ++ ofText ".src") := by
    rw [← Bytes.ofText_append]
    exact hm _ h.src
  have sizes : (ofText ".src").length = 4 ∧ (ofText ".tar.gz").length = 7 ∧
      (ofText markerName).length = 9 := by decide
  obtain ⟨hn, _, hl⟩ := checkPath_ok.1 h.usable
  rw [show (s.marker deps).bytes = _ from hm' markerName isName_marker, src] at hn hl
  have bytes : (s.archivePath deps).bytes = deps.bytes ++ m ++ (ofText s.stem ++ ofText ".tar.gz") := by
    rw [← Bytes.ofText_append]
    exact hm _ h.archive
  refine checkPath_ok.2 ⟨?_, Path.bytes_div_ne_nil _ h.archive, ?_⟩
  · rw [bytes]
    simp only [Bytes.hasNul, List.contains_append, Bool.or_eq_false_iff] at hn ⊢
    exact ⟨hn.1.1.1, hn.1.1.2.1, by decide⟩
  · rw [bytes]
    simp only [List.length_append, sizes] at hl ⊢
    omega

/-- The names of the source are plain, and paths to the archive and to what it is unpacked to can be
used. -/
structure Storable (s : Source) (deps : Path) : Prop extends Named s where
  short : (ofText s.archiveName).length ≤ nameLimit
  room : checkPath (s.archivePath deps) = .ok ()

theorem Plain.storable {deps : Path} (h : s.Plain deps) : s.Storable deps :=
  ⟨h.toNamed, h.short, h.archive_usable⟩

theorem Storable.fits {deps : Path} (h : s.Storable deps) (ending : String)
    (he : slash ∉ ofText ending) (hnul : 0 ∉ ofText ending) (hlen : (ofText ending).length ≤ 7) :
    checkPath (deps / (s.stem ++ ending)) = .ok () ∧
      (ofText (s.stem ++ ending)).length ≤ nameLimit :=
  h.toNamed.fits h.room h.short ending he hnul hlen

theorem Storable.fits_stem {deps : Path} (h : s.Storable deps) :
    checkPath (deps / s.stem) = .ok () ∧ (ofText s.stem).length ≤ nameLimit := by
  have := h.fits "" (by decide) (by decide) (by decide)
  simpa using this

/-- What is in the place of the archive goes, unless it is a directory. -/
theorem run_clearArchive {o : Outside} {w : World} {deps : Path} {top : Location}
    (storable : s.Storable deps) (opens : Opens w.volume w.cwd deps top)
    (free : w.volume.lookup (s.archiveAt top) ≠ some .dir) :
    ∃ w', (removeFileIfThere (s.archivePath deps)).run o w = (.ok (), w') ∧
      Moved (fun v u => u = v ∨ u = v.erase (s.archiveAt top)) w w' ∧
      ∀ l, w'.volume.lookup l = if l = s.archiveAt top then none else w.volume.lookup l :=
  run_removeFileIfThere_name storable.archive storable.room storable.short opens free

end Source
end PinnedDeps
