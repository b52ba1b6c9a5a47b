import PinnedDeps.Proofs.Archive.Sprouting
import PinnedDeps.Proofs.Source.Site
import PinnedDeps.Proofs.Source.Straying

/-!
Failed acquisitions and what the archive holds. If an archive has nothing but directories and files below the
stem of the source, the unpacking stops with the marker in sight if and only if the archive can be extracted
and needs a directory in the place of the marker.
-/
namespace PinnedDeps.Source

open Bytes (ofText)
open Volume PinnedDeps.Action

variable {s : Source} {o : Outside} {w w₁ w₂ w' : World} {deps : Path} {cwd top : Location} {v u : Volume}
  {f : File} {e : BuildError} {a : Archive}

/-- While the path leads to the directory, what is seen of a marker stands in its place. -/
theorem markerAt_of_seen (named : s.Named) (led : Led v cwd deps top)
    (nolink : ∀ t, v.lookup (s.srcAt top) ≠ some (.link t)) (seen : s.isExtracted deps v cwd = true) :
    Opens v cwd (s.srcDir deps) (s.srcAt top) ∧ (v.lookup (s.markerAt top)).isSome := by
  obtain ⟨l, x, hs⟩ := leadsSomewhere_iff.1 seen
  obtain ⟨d, opens, there⟩ := stat_div isName_marker hs
  obtain ⟨b, hb, -⟩ := opens.of_div named.src
  obtain rfl := led b hb
  obtain ⟨rfl, -, -⟩ := opens.enters named.src hb nolink
  exact ⟨opens, there⟩

/-- The marker is refused if and only if a directory has its place. -/
theorem openFile_marker (plain : s.Plain deps) (src : Opens v cwd (s.srcDir deps) (s.srcAt top))
    (nolink : ∀ t, v.lookup (s.markerAt top) ≠ some (.link t)) :
    v.openFile cwd (s.marker deps) plainMode false = .error SystemError.isDirectory ↔
      v.lookup (s.markerAt top) = some .dir := by
  have opened : v.openFile cwd (s.marker deps) plainMode false = _ :=
    openFile_eq isName_marker plain.usable (by decide) src plainMode false nolink
  rw [opened, show ofText markerName :: s.srcAt top = s.markerAt top from rfl]
  cases entry : v.lookup (s.markerAt top) with
  | none => simp
  | some x =>
    cases x with
    | dir => simp
    | file g => simp
    | link t => exact absurd entry (nolink t)

/-- Where the marker would come to stand, in the tree as it has been unpacked. -/
def unpackedMarkerAt (s : Source) (top : Location) : Location := ofText markerName :: s.unpackedAt top

theorem takes_unpackedMarkerAt (top : Location) : a.Takes top (s.unpackedMarkerAt top) ↔
    ∃ m ∈ a.members, m.Needs [ofText s.stem, ofText markerName] := by
  constructor
  · rintro ⟨m, hm, ns, needs, place⟩
    have same : ns.reverse = [ofText markerName, ofText s.stem] :=
      List.append_cancel_right (place.symm : _ = [ofText markerName, ofText s.stem] ++ top)
    obtain rfl : ns = [ofText s.stem, ofText markerName] := List.reverse_eq_iff.1 same
    exact ⟨m, hm, needs⟩
  · rintro ⟨m, hm, needs⟩
    exact ⟨m, hm, _, needs, rfl⟩

/-- What the extraction of an archive below the stem has come to, from where it was stored. -/
structure Extracting (s : Source) (deps : Path) (cwd top : Location) (f : File) (a : Archive) (v u : Volume) :
    Prop where
  stored : s.Stored deps cwd top f v
  sprouted : Sprouted top (ofText s.stem) (a.Takes top) v u

namespace Extracting

variable (h : s.Extracting deps cwd top f a v u)
include h

theorem only : Only (s.Own top) v u := fun l hl => h.sprouted.only l fun b => hl (own_of_unpacked b)

theorem gone : Gone u (s.srcAt top) :=
  h.stored.src.congr fun l hl => h.sprouted.only l (not_unpacked_of_src hl)

theorem archive : u.lookup (s.archiveAt top) = some (.file f) :=
  (h.sprouted.only _ archiveAt_not_unpacked).trans h.stored.archive

theorem unseen (named : s.Named) : s.isExtracted deps u cwd = false := by
  rw [Bool.eq_false_iff]
  intro seen
  have there := (markerAt_of_seen named (h.stored.led h.only)
    (fun t link => by simp [h.gone _ (below_refl _)] at link) seen).2
  rw [h.gone _ (markerAt_below s top)] at there
  cases there

/-- A directory in the place of the marker is one that the archive needs. -/
theorem takes_of_dir (dir : u.lookup (s.unpackedMarkerAt top) = some .dir) :
    a.Takes top (s.unpackedMarkerAt top) := by
  rcases h.sprouted.new _ dir with old | taken
  · rw [h.stored.unpacked (s.unpackedMarkerAt top) (below_cons _ _)] at old
    cases old
  · exact taken

/-- The tree is moved with what is in the place of the marker, and the archive stays where it is. -/
theorem moved (named : s.Named) {x : Volume}
    (renamed : u.rename cwd (s.unpackedDir deps) (s.srcDir deps) = .ok x) :
    Opens x cwd deps top ∧ x.lookup (s.archiveAt top) = some (.file f) ∧
      (∀ t, x.lookup (s.srcAt top) ≠ some (.link t)) ∧
      (x.lookup (s.markerAt top) = none ∨ x.lookup (s.markerAt top) = u.lookup (s.unpackedMarkerAt top)) := by
  obtain ⟨placing, hx⟩ := rename_within named (h.stored.led h.only) renamed
  refine ⟨h.stored.opens.keep (h.stored.keeps (h.only.trans _ _ _ placing)), ?_⟩
  rcases hx with rfl | rfl
  · refine ⟨h.archive, fun t link => ?_, .inl (h.gone _ (markerAt_below s top))⟩
    rw [h.gone _ (below_refl _)] at link
    cases link
  · refine ⟨?_, fun t link => ?_, .inr (lookup_placed h.gone [ofText markerName])⟩
    · exact (lookup_relocate_of_not_below archiveAt_not_unpacked archiveAt_not_src).trans h.archive
    · exact h.sprouted.bare.noLink _ t (below_refl _) ((lookup_placed h.gone []).symm.trans link)

end Extracting

section Unpacked

variable (plain : s.Plain deps) (extracted : s.Extracting deps w.cwd top f a w.volume w₁.volume)
  (here : w₁.cwd = w.cwd)
include plain extracted here

/-- Once the tree has been moved, the archive can be removed. -/
theorem run_clear_moved (renamed : w₁.volume.rename w₁.cwd (s.unpackedDir deps) (s.srcDir deps) = .ok v) :
    ∃ w₂, (removeFileIfThere (s.archivePath deps)).run o (w₁.set v) = (.ok (), w₂) ∧
      Opens w₂.volume w₂.cwd deps top ∧ ∀ l, l ≠ s.archiveAt top → w₂.volume.lookup l = v.lookup l := by
  rw [here] at renamed
  obtain ⟨opens, archive, -, -⟩ := extracted.moved plain.toNamed renamed
  obtain ⟨w₂, run, cleared, look⟩ := run_clearArchive (o := o) (w := w₁.set v) plain.storable
    (here ▸ opens : Opens v w₁.cwd deps top) (by simp [archive])
  have cwd₂ : w₂.cwd = w₁.cwd := cleared.cwd
  refine ⟨w₂, run, ?_, fun l hl => (look l).trans (if_neg hl)⟩
  rw [cwd₂, here]
  refine opens.keep fun l x hx notFile => (look l).trans ((if_neg ?_).trans hx)
  rintro rfl
  rw [archive] at hx
  cases hx
  exact notFile f rfl

/-- If the marker is refused and yet in sight, the archive needs a directory in its place. -/
theorem takes_of_refused (renamed : w₁.volume.rename w₁.cwd (s.unpackedDir deps) (s.srcDir deps) = .ok v)
    (cleared : (removeFileIfThere (s.archivePath deps)).run o (w₁.set v) = (.ok (), w₂))
    (failed : w₂.volume.openFile w₂.cwd (s.marker deps) plainMode false = .error SystemError.isDirectory)
    (seen : s.isExtracted deps w₂.volume w₂.cwd = true) : a.Takes top (s.unpackedMarkerAt top) := by
  obtain ⟨_, run, opens, look⟩ := run_clear_moved (o := o) plain extracted here renamed
  rw [cleared] at run
  cases run
  rw [here] at renamed
  obtain ⟨-, -, nolink, marker⟩ := extracted.moved plain.toNamed renamed
  obtain ⟨src, there⟩ := markerAt_of_seen plain.toNamed opens.led (fun t => by
    rw [look _ (ne_archiveAt_of_src (below_refl _))]
    exact nolink t) seen
  have same : w₂.volume.lookup (s.markerAt top) = w₁.volume.lookup (s.unpackedMarkerAt top) := by
    rw [look _ (ne_archiveAt_of_src (markerAt_below s top))] at there ⊢
    rcases marker with none | same
    · rw [none] at there
      cases there
    · exact same
  have dir := (openFile_marker plain src fun t => by
    rw [same]
    exact extracted.sprouted.bare.noLink _ t (below_cons _ _)).1 failed
  exact extracted.takes_of_dir (same.symm.trans dir)

/-- The marker is refused and in sight where the archive has made a directory of its name. -/
theorem refused_of_dir (dir : w₁.volume.lookup (s.unpackedMarkerAt top) = some .dir) :
    ∃ v w₂, w₁.volume.rename w₁.cwd (s.unpackedDir deps) (s.srcDir deps) = .ok v ∧
      (removeFileIfThere (s.archivePath deps)).run o (w₁.set v) = (.ok (), w₂) ∧
      w₂.volume.openFile w₂.cwd (s.marker deps) plainMode false = .error SystemError.isDirectory ∧
      s.isExtracted deps w₂.volume w₂.cwd = true := by
  have stem := plain.storable.fits_stem
  have ending := plain.storable.fits ".src" (by decide) (by decide) (by decide)
  have tree : w₁.volume.lookup (s.unpackedAt top) = some .dir :=
    extracted.sprouted.bare.upright _ _ (Option.isSome_of_eq_some dir)
  have gone := extracted.gone
  have opens : Opens w₁.volume w₁.cwd deps top :=
    here ▸ extracted.stored.opens.keep (extracted.stored.keeps extracted.only)
  have renamed : w₁.volume.rename w₁.cwd (s.unpackedDir deps) (s.srcDir deps) =
      .ok (w₁.volume.relocate (s.unpackedAt top) (s.srcAt top)) :=
    rename_new plain.stem plain.src (fun same => s.names_ne.1 (congrArg ofText same)) stem.1 stem.2
      ending.1 ending.2 opens tree (gone _ (below_refl _))
  obtain ⟨w₂, cleared, opens₂, look⟩ := run_clear_moved (o := o) plain extracted here renamed
  have srcDir : w₂.volume.lookup (s.srcAt top) = some .dir :=
    (look _ (ne_archiveAt_of_src (below_refl _))).trans ((lookup_placed gone []).trans tree)
  have marker : w₂.volume.lookup (s.markerAt top) = some .dir :=
    (look _ (ne_archiveAt_of_src (markerAt_below s top))).trans
      ((lookup_placed gone [ofText markerName]).trans dir)
  have src := (opens_div plain.src opens₂ ending.2 srcDir).2 rfl
  have seen : w₂.volume.stat w₂.cwd (s.marker deps) = .ok (s.markerAt top, .dir) :=
    stat_eq isName_marker plain.usable (by decide) src marker (by simp)
  exact ⟨_, w₂, renamed, cleared, (openFile_marker plain src (by simp [marker])).2 marker,
    leadsSomewhere_iff.2 ⟨_, _, seen⟩⟩

end Unpacked

/-- What stands when the archive is unpacked: the archive itself, and the directory it is unpacked into. -/
structure Unpackable (s : Source) (deps : Path) (top : Location) (f : File) (w : World) : Prop where
  stored : s.Stored deps w.cwd top f w.volume
  ground : Ground top w.volume
  usable : Usable top

/-- The unpacking of directories and files below the stem stops with the marker in sight if and only if they
can be extracted and one of them needs a directory in the place of the marker. -/
theorem stopsMarked_iff (plain : s.Plain deps) (checked : checkPath deps = .ok ())
    (ready : s.Unpackable deps top f w)
    (grown : ∀ m ∈ (o.archive f.bytes).members, m.Grown (ofText s.stem)) :
    StopsMarked s deps (s.archivePath deps) o w ↔
      (∃ w₁, (extract (s.archivePath deps) deps).run o w = (.ok (), w₁)) ∧
        ∃ m ∈ (o.archive f.bytes).members, m.Needs [ofText s.stem, ofText markerName] := by
  have bare : Bare top (ofText s.stem) w.volume := by
    refine ⟨ready.ground, fun l t hl link => ?_⟩
    rw [ready.stored.unpacked l hl] at link
    cases link
  obtain ⟨moved, made⟩ := Unpack.unpack_sprouts (o := o) grown ready.usable checked ready.stored.opens bare
  have extraction := run_extract_stored (o := o) plain.toNamed ready.stored
  have extracted : ∀ {r w₁}, (extract (s.archivePath deps) deps).run o w = (r, w₁) →
      s.Extracting deps w.cwd top f (o.archive f.bytes) w.volume w₁.volume ∧ w₁.cwd = w.cwd := by
    intro r w₁ run
    rw [extraction, run_mapError] at run
    cases run
    exact ⟨⟨ready.stored, moved.now⟩, moved.cwd⟩
  rw [← takes_unpackedMarkerAt top]
  constructor
  · intro stops
    cases stops with
    | unpacking failed seen =>
      obtain ⟨after, here⟩ := extracted failed
      rw [here, after.unseen plain.toNamed] at seen
      cases seen
    | moving unpacked failed seen =>
      obtain ⟨after, here⟩ := extracted unpacked
      rw [here, after.unseen plain.toNamed] at seen
      cases seen
    | clearing unpacked renamed failed seen =>
      obtain ⟨after, here⟩ := extracted unpacked
      obtain ⟨_, run, -⟩ := run_clear_moved (o := o) plain after here renamed
      rw [failed] at run
      cases run
    | marking unpacked renamed cleared failed seen =>
      obtain ⟨after, here⟩ := extracted unpacked
      exact ⟨⟨_, unpacked⟩, takes_of_refused plain after here renamed cleared failed seen⟩
  · rintro ⟨⟨w₁, unpacked⟩, taken⟩
    obtain ⟨after, here⟩ := extracted unpacked
    have dir := made w₁ (run_mapError_ok.1 (extraction ▸ unpacked)) _ taken
    obtain ⟨v, w₂, renamed, cleared, failed, seen⟩ := refused_of_dir (o := o) plain after here dir
    exact .marking unpacked renamed cleared failed seen

/-- Nothing is brought into sight where the directory is there. -/
theorem not_exposesMarker (made : (ensureDir deps).run o w = (.ok (), w))
    (unseen : s.isExtracted deps w.volume w.cwd = false) : ¬ ExposesMarker s deps o w := by
  intro exposes
  cases exposes with
  | making failed _ =>
    rw [made] at failed
    cases failed
  | clearing made' _ seen =>
    rw [made] at made'
    cases made'
    rw [unseen] at seen
    cases seen

/-- Where the directory is there and only directories and files below the stem are accepted, a failed
acquisition leaves the source extracted if and only if its archive has been extracted and needs a directory in
the place of the marker. -/
theorem failed_extracted_iff (plain : s.Plain deps) (checked : checkPath deps = .ok ())
    (upright : Upright w.volume) (here : w.volume.lookup w.cwd = some .dir) (usable : Usable w.cwd)
    (opens : Opens w.volume w.cwd deps top)
    (grown : ∀ b, s.Accepted o b → ∀ m ∈ (o.archive b).members, m.Grown (ofText s.stem))
    (unseen : s.isExtracted deps w.volume w.cwd = false)
    (run : (s.acquire deps).run o w = (.error e, w')) :
    s.isExtracted deps w'.volume w'.cwd = true ↔ ∃ f w₁ w₂,
      (s.fetchArchive deps).run o w = (.ok (), w₁) ∧ w₁.volume.lookup (s.archiveAt top) = some (.file f) ∧
        (extract (s.archivePath deps) deps).run o w₁ = (.ok (), w₂) ∧
        ∃ m ∈ (o.archive f.bytes).members, m.Needs [ofText s.stem, ofText markerName] := by
  have made := run_ensureDir_there (o := o) checked opens (upright.opens opens here)
  have ready := (fetchArchive_within (o := o) plain.toNamed made upright here usable opens.led).2
  rw [acquire_extracted_iff unseen run, or_iff_right (not_exposesMarker made unseen)]
  constructor
  · rintro ⟨w₁, fetched, -, stops⟩
    obtain ⟨ground, usable, f, accepted, stored⟩ := ready w₁ fetched
    obtain ⟨⟨w₂, extracted⟩, needs⟩ := (stopsMarked_iff plain checked ⟨stored, ground, usable⟩
      (grown _ accepted)).1 stops
    exact ⟨f, w₁, w₂, fetched, stored.archive, extracted, needs⟩
  · rintro ⟨f, w₁, w₂, fetched, archive, extracted, needs⟩
    obtain ⟨ground, usable, f', accepted, stored⟩ := ready w₁ fetched
    cases archive.symm.trans stored.archive
    exact ⟨w₁, fetched, fetchArchive_shuts fetched,
      (stopsMarked_iff plain checked ⟨stored, ground, usable⟩ (grown _ accepted)).2 ⟨⟨w₂, extracted⟩, needs⟩⟩

/-- The one member of an archive, below its stem and in the place of its marker. -/
example : ∀ m ∈ crowded.members, m.Grown (ofText demo.stem) ∧
    m.Needs [ofText demo.stem, ofText markerName] := by
  intro m hm
  obtain rfl := List.mem_singleton.1 hm
  have names : (Member.mk (ofText "demo-0.1.0/EXTRACTED/") (.dir true) none).names? =
      some ([ofText demo.stem, ofText markerName] ++ []) := by decide
  exact ⟨.dir rfl names, .dir rfl names⟩

end PinnedDeps.Source
