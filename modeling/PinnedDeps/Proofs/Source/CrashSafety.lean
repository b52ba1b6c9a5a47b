import PinnedDeps.Proofs.Archive.Unpacking
import PinnedDeps.Proofs.Source.Confinement
import PinnedDeps.Proofs.Source.Site
import PinnedDeps.Proofs.Volume.Sharing

/-!
Acquisitions that are cut off. The volumes that runs can leave behind are `Reached`; `Sound` holds
of all of them: the marker is there only with the whole tree of the archive and no remnants. From
each of them an acquisition that gets its answer and is not cut off ends with the marker.
-/
namespace PinnedDeps

open Bytes (ofText slash)
open Volume PinnedDeps.Action

namespace Source

variable {s : Source} {x : Site} {T : Location → Option Entry} {v u : Volume} {o : Outside}
  {w w' : World}

/-- The sources are the given tree with a marker, and nothing else of the source is left. -/
structure Complete (s : Source) (T : Location → Option Entry) (top : Location) (v : Volume) :
    Prop where
  tree : ∀ r, r ≠ [ofText markerName] → v.tree (s.srcAt top) r = T r
  marker : ∃ f, v.lookup (s.markerAt top) = some (.file f)
  unpacked : Gone v (s.unpackedAt top)
  archive : v.lookup (s.archiveAt top) = none

/-- In the directory stands nothing but what an acquisition makes: an archive that is no directory,
and two trees. -/
structure Shaped (s : Source) (x : Site) (v : Volume) : Prop where
  around : x.Around v
  own : ∀ l, Inside l x.top → (v.lookup l).isSome → l = s.archiveAt x.top ∨
    Below l (s.unpackedAt x.top) ∨ Below l (s.srcAt x.top)
  archive : v.lookup (s.archiveAt x.top) ≠ some .dir
  unpacked : TreeAt v (s.unpackedAt x.top)
  src : TreeAt v (s.srcAt x.top)

/-- The invariant of all acquisitions. -/
structure Sound (s : Source) (x : Site) (T : Location → Option Entry) (v : Volume) : Prop
    extends Shaped s x v where
  made : (∀ l, Inside l x.top → v.lookup l = none) ∨ Opens v x.cwd x.deps x.top
  marked : (v.lookup (s.markerAt x.top)).isSome → s.Complete T x.top v

/-- The invariant while an acquisition is at work. -/
structure Unmarked (s : Source) (x : Site) (v : Volume) : Prop extends Shaped s x v where
  opens : Opens v x.cwd x.deps x.top
  marker : v.lookup (s.markerAt x.top) = none

theorem Unmarked.sound (h : s.Unmarked x v) : s.Sound x T v := by
  refine ⟨h.toShaped, .inr h.opens, fun g => ?_⟩
  rw [h.marker] at g
  cases g

theorem Complete.congr {top : Location} (h : s.Complete T top v)
    (same : ∀ l, Inside l top → u.lookup l = v.lookup l) : s.Complete T top u where
  tree r hr := by
    unfold Volume.tree
    rw [same _ (inside_of_src (below_append r _))]
    exact h.tree r hr
  marker := by
    obtain ⟨f, hf⟩ := h.marker
    exact ⟨f, (same _ (inside_markerAt s top)).trans hf⟩
  unpacked := h.unpacked.congr fun j hj => same j hj.inside
  archive := (same _ (inside_archiveAt s top)).trans h.archive

/-- Making the directory with what is above it changes nothing in it. -/
theorem Sound.paved (h : s.Sound x T v) (g : Paved x.top v u) : s.Sound x T u := by
  have same : ∀ l, Inside l x.top → u.lookup l = v.lookup l := by
    intro l hl
    rcases g l with e | ⟨_, _, hb⟩
    · exact e
    · exact absurd hb hl.not_above
  refine ⟨⟨h.around.paved g, fun l hl hsome => ?_, ?_, ?_, ?_⟩, ?_, fun hm => ?_⟩
  · rw [same l hl] at hsome
    exact h.own l hl hsome
  · rw [same _ (inside_archiveAt s x.top)]
    exact h.archive
  · exact h.unpacked.congr fun j hj => same j hj.inside
  · exact h.src.congr fun j hj => same j hj.inside
  · exact h.made.imp (fun e l hl => (same l hl).trans (e l hl)) fun o => o.keep g.keeps
  · rw [same _ (inside_markerAt s x.top)] at hm
    exact (h.marked hm).congr same

section Paths

variable (plain : s.Plain x.deps)
include plain

theorem Shaped.opens_src {e : Location} (h : s.Shaped x v)
    (g : Opens v x.cwd (s.srcDir x.deps) e) :
    Opens v x.cwd x.deps x.top ∧ e = s.srcAt x.top := by
  obtain ⟨d, hd, hed⟩ := g.of_div plain.src
  obtain rfl := h.around.eq_top hd
  rcases hed with rfl | ⟨t, hlink⟩
  · exact ⟨hd, rfl⟩
  · exact absurd hlink (h.src.not_link t)

/-- The source counts as extracted if and only if the marker stands in its place. -/
theorem Sound.isExtracted_iff (h : s.Sound x T v) :
    s.isExtracted x.deps v x.cwd = true ↔ (v.lookup (s.markerAt x.top)).isSome := by
  constructor
  · intro g
    obtain ⟨l, y, hs⟩ := leadsSomewhere_iff.1 g
    obtain ⟨e, he, hm⟩ := stat_div isName_marker hs
    obtain ⟨_, rfl⟩ := h.opens_src plain he
    exact hm
  · intro g
    have hn := plain.src
    have fits := plain.storable.fits ".src" (by decide) (by decide) (by decide)
    obtain ⟨f, hf⟩ := (h.marked g).marker
    have opens : Opens v x.cwd x.deps x.top := by
      rcases h.made with empty | opens
      · have := empty _ (inside_markerAt s x.top)
        rw [hf] at this
        cases this
      · exact opens
    have dir : v.lookup (s.srcAt x.top) = some .dir := by
      rcases h.src with gone | dir
      · rw [gone _ (markerAt_below s x.top)] at hf
        cases hf
      · exact dir
    have src := (opens_div hn opens fits.2 dir).2 rfl
    have seen : v.stat x.cwd (s.marker x.deps) = .ok (s.markerAt x.top, .file f) :=
      stat_eq isName_marker plain.usable (by decide) src hf (by simp)
    exact leadsSomewhere_iff.2 ⟨_, _, seen⟩

end Paths

/-- Removals in the directory keep the invariant if the trees stay trees. -/
theorem Unmarked.thins (h : s.Unmarked x v) (within : Within x.top v u) (g : Thins v u)
    (unpacked : TreeAt u (s.unpackedAt x.top)) (src : TreeAt u (s.srcAt x.top)) :
    s.Unmarked x u where
  around := h.around.within within
  own l hl hsome := by
    obtain ⟨e, he⟩ := Option.isSome_iff_exists.1 hsome
    exact h.own l hl (by rw [g l e he]; rfl)
  archive hd := h.archive (g _ _ hd)
  unpacked := unpacked
  src := src
  opens := h.around.fixed h.opens u within
  marker := g.none h.marker

theorem Unmarked.erase_archive (h : s.Unmarked x v) :
    s.Unmarked x (v.erase (s.archiveAt x.top)) := by
  refine h.thins (fun l hl => lookup_erase_ne v ?_) (thins_erase v _)
    (h.unpacked.congr fun j hj => lookup_erase_ne v (ne_archiveAt_of_unpacked hj))
    (h.src.congr fun j hj => lookup_erase_ne v (ne_archiveAt_of_src hj))
  rintro rfl
  exact hl (inside_archiveAt s x.top)

theorem Unmarked.prune_src (h : s.Unmarked x v) (g : Pruned (s.srcAt x.top) v u) :
    s.Unmarked x u :=
  h.thins g.within g.thins (h.unpacked.congr fun j hj => g.outside j (not_src_of_unpacked hj))
    (g.treeAt h.src)

theorem Unmarked.prune_unpacked (h : s.Unmarked x v) (g : Pruned (s.unpackedAt x.top) v u) :
    s.Unmarked x u :=
  h.thins g.within g.thins (g.treeAt h.unpacked)
    (h.src.congr fun j hj => g.outside j (not_unpacked_of_src hj))

/-- What has passed only volumes of a kind. -/
abbrev Keeping (P : Volume → Prop) : World → World → Prop := Moved fun _ u => P u

theorem Keeping.append {P : Volume → Prop} {w₁ : World} (h : Keeping P w w₁)
    (g : Keeping P w₁ w') : Keeping P w w' :=
  h.trans (fun _ _ _ _ g => g) g

theorem Unmarked.fixed (h : s.Unmarked x w.volume) (hcwd : w.cwd = x.cwd) :
    Fixed w.volume w.cwd x.deps x.top := by
  rw [hcwd]
  exact h.around.fixed h.opens

/-- The archive is there, and nothing else is in the directory. -/
structure Fetched (s : Source) (x : Site) (v : Volume) : Prop where
  around : x.Around v
  opens : Opens v x.cwd x.deps x.top
  archive : ∃ f, v.lookup (s.archiveAt x.top) = some (.file f)
  alone : ∀ l, Inside l x.top → l ≠ s.archiveAt x.top → v.lookup l = none

theorem Unmarked.file_archive (h : s.Unmarked x v)
    (empty : ∀ l, Inside l x.top → v.lookup l = none) (g : Filed (s.archiveAt x.top) v u) :
    s.Unmarked x u ∧ s.Fetched x u := by
  obtain ⟨f, hf⟩ := g
  have within : Within x.top v u := by
    intro l hl
    rw [hf l, if_neg]
    rintro rfl
    exact hl (inside_archiveAt s x.top)
  have alone : ∀ l, Inside l x.top → l ≠ s.archiveAt x.top → u.lookup l = none := by
    intro l hl hne
    rw [hf l, if_neg hne, empty l hl]
  have here : u.lookup (s.archiveAt x.top) = some (.file f) := by rw [hf, if_pos rfl]
  have around := h.around.within within
  have opens := h.around.fixed h.opens u within
  refine ⟨⟨⟨around, fun l hl hsome => ?_, by simp [here], .inl fun j hj => ?_, .inl fun j hj => ?_⟩,
    opens, ?_⟩, around, opens, ⟨f, here⟩, alone⟩
  · by_cases hne : l = s.archiveAt x.top
    · exact .inl hne
    · rw [alone l hl hne] at hsome
      cases hsome
  · exact alone j hj.inside (ne_archiveAt_of_unpacked hj)
  · exact alone j hj.inside (ne_archiveAt_of_src hj)
  · exact alone _ (inside_markerAt s _) (ne_archiveAt_of_src (markerAt_below s _))

/-- The answer to the request for the source is a body with the digest. -/
def Answers (s : Source) (sha : String) (o : Outside) : Prop :=
  ∃ b, fetched s.url (o.exchange s.url).answer = .ok b ∧ o.digest b = sha

/-- Unpacked where nothing else is, the archive gives the tree below the stem. No step of it changes
anything outside that tree, and no marker is ever in it. -/
def UnpacksTo (s : Source) (x : Site) (T : Location → Option Entry) (a : Archive) : Prop :=
  ∀ (o : Outside) w, w.cwd = x.cwd → s.Fetched x w.volume →
    ∃ w', (Unpack.unpack a x.deps).run o w = (.ok (), w') ∧
      Moved (Grows (s.unpackedAt x.top)) w w' ∧
      w'.volume.lookup (s.unpackedAt x.top) = some .dir ∧
      w'.volume.tree (s.unpackedAt x.top) = T

theorem Unmarked.grows (h : s.Unmarked x v) (g : Grows (s.unpackedAt x.top) v u) :
    s.Unmarked x u := by
  have within : Within x.top v u := fun l hl => g.outside l fun b => hl b.inside
  refine ⟨⟨h.around.within within, fun l hl hsome => ?_, ?_, g.tree, ?_⟩,
    h.around.fixed h.opens u within, ?_⟩
  · by_cases hb : Below l (s.unpackedAt x.top)
    · exact .inr (.inl hb)
    · rw [g.outside l hb] at hsome
      exact h.own l hl hsome
  · rw [g.outside _ archiveAt_not_unpacked]
    exact h.archive
  · exact h.src.congr fun j hj => g.outside j (not_unpacked_of_src hj)
  · rw [g.outside _ (not_unpacked_of_src (markerAt_below s x.top))]
    exact h.marker

/-- The unpacked tree can take the place of the sources, where nothing is. -/
theorem Unmarked.place (h : s.Unmarked x v) (gone : Gone v (s.srcAt x.top))
    (dir : v.lookup (s.unpackedAt x.top) = some .dir)
    (nomarker : v.lookup (ofText markerName :: s.unpackedAt x.top) = none) :
    let u := v.relocate (s.unpackedAt x.top) (s.srcAt x.top)
    s.Unmarked x u ∧ (∀ r, u.lookup (r ++ s.srcAt x.top) = v.lookup (r ++ s.unpackedAt x.top)) ∧
      Gone u (s.unpackedAt x.top) := by
  intro u
  have below : ∀ r, u.lookup (r ++ s.srcAt x.top) = v.lookup (r ++ s.unpackedAt x.top) :=
    lookup_placed gone
  have left : Gone u (s.unpackedAt x.top) := fun j hj =>
    lookup_relocate_source (by simp [unpackedAt]) hj (not_src_of_unpacked hj)
  have rest : ∀ l, ¬ Below l (s.unpackedAt x.top) → ¬ Below l (s.srcAt x.top) →
      u.lookup l = v.lookup l := fun l h₁ h₂ => lookup_relocate_of_not_below h₁ h₂
  have within : Within x.top v u := fun l hl =>
    rest l (fun b => hl b.inside) fun b => hl b.inside
  refine ⟨⟨⟨h.around.within within, fun l hl hsome => ?_, ?_, .inl left, .inr ?_⟩,
    h.around.fixed h.opens u within, ?_⟩, below, left⟩
  · by_cases h₁ : Below l (s.unpackedAt x.top)
    · exact .inr (.inl h₁)
    by_cases h₂ : Below l (s.srcAt x.top)
    · exact .inr (.inr h₂)
    rw [rest l h₁ h₂] at hsome
    exact h.own l hl hsome
  · rw [rest _ archiveAt_not_unpacked archiveAt_not_src]
    exact h.archive
  · exact (below []).trans dir
  · exact (below [ofText markerName]).trans nomarker

/-- The marker completes the sources. -/
theorem Unmarked.complete (h : s.Unmarked x v) (archive : v.lookup (s.archiveAt x.top) = none)
    (gone : Gone v (s.unpackedAt x.top)) (dir : v.lookup (s.srcAt x.top) = some .dir)
    (g : Filed (s.markerAt x.top) v u) : s.Sound x (v.tree (s.srcAt x.top)) u ∧
      (u.lookup (s.markerAt x.top)).isSome := by
  obtain ⟨f, hf⟩ := g
  have other : ∀ l, l ≠ s.markerAt x.top → u.lookup l = v.lookup l := fun l hl => by
    rw [hf l, if_neg hl]
  have here : u.lookup (s.markerAt x.top) = some (.file f) := by rw [hf, if_pos rfl]
  have hA : u.lookup (s.archiveAt x.top) = none := by
    rw [other _ (ne_archiveAt_of_src (markerAt_below s _)).symm, archive]
  have hS : Gone u (s.unpackedAt x.top) := by
    refine gone.congr fun j hj => other j ?_
    rintro rfl
    exact not_src_of_unpacked hj (markerAt_below s x.top)
  have hR : u.lookup (s.srcAt x.top) = some .dir := by
    rw [other _ (List.cons_ne_self _ _).symm, dir]
  have within : Within x.top v u := fun l hl => other l (by
    rintro rfl
    exact hl (inside_markerAt s x.top))
  refine ⟨⟨⟨h.around.within within, fun l hl hsome => ?_, by simp [hA], .inl hS, .inr hR⟩,
    .inr (h.around.fixed h.opens u within), fun _ => ⟨fun r hr => ?_, ⟨f, here⟩, hS, hA⟩⟩,
    by rw [here]; rfl⟩
  · by_cases hm : l = s.markerAt x.top
    · exact .inr (.inr (hm ▸ markerAt_below s x.top))
    · rw [other l hm] at hsome
      exact h.own l hl hsome
  · unfold tree
    rw [other]
    intro g
    exact hr (List.append_cancel_right (g : r ++ s.srcAt x.top = [ofText markerName] ++ _))

/-- The unpacked tree takes its place and the archive goes; what is left to do is to mark it. -/
theorem run_place {deps : Path} {top : Location} (storable : s.Storable deps)
    (fixed : Fixed w.volume w.cwd deps top) (archive : w.volume.lookup (s.archiveAt top) ≠ some .dir)
    (dir : w.volume.lookup (s.unpackedAt top) = some .dir) (gone : Gone w.volume (s.srcAt top))
    (nomarker : w.volume.lookup (ofText markerName :: s.unpackedAt top) = none) :
    let placed := w.volume.relocate (s.unpackedAt top) (s.srcAt top)
    ∃ w₁, (s.settle deps (s.archivePath deps)).run o w =
        (writeFile (s.marker deps) (ofText markerText)).run o w₁ ∧
      Moved (fun v u => u = v ∨ u = v.erase (s.archiveAt top)) (w.set placed) w₁ ∧
      (∀ l, w₁.volume.lookup l = if l = s.archiveAt top then none else placed.lookup l) ∧
      Opens w₁.volume w₁.cwd (s.srcDir deps) (s.srcAt top) ∧
      w₁.volume.lookup (s.markerAt top) = none := by
  intro placed
  have ending := storable.fits ".src" (by decide) (by decide) (by decide)
  have renamed : w.volume.rename w.cwd (s.unpackedDir deps) (s.srcDir deps) = .ok placed := by
    refine rename_new storable.stem storable.src ?_ storable.fits_stem.1 storable.fits_stem.2 ending.1
      ending.2 fixed.opens dir (gone _ (below_refl _))
    exact fun e => s.names_ne.1 (congrArg ofText e)
  have outside : ∀ l, ¬ Below l (s.unpackedAt top) → ¬ Below l (s.srcAt top) →
      placed.lookup l = w.volume.lookup l := fun l h g => lookup_relocate_of_not_below h g
  have within : Within top w.volume placed := fun l hl =>
    outside l (fun b => hl b.inside) fun b => hl b.inside
  have spared : placed.lookup (s.archiveAt top) ≠ some .dir := by
    rw [outside _ archiveAt_not_unpacked archiveAt_not_src]
    exact archive
  obtain ⟨w₁, run₁, cleared, look⟩ := run_clearArchive (o := o) (w := w.set placed) storable
    (fixed placed within) spared
  have below : ∀ r, w₁.volume.lookup (r ++ s.srcAt top) = w.volume.lookup (r ++ s.unpackedAt top) := by
    intro r
    rw [look, if_neg (ne_archiveAt_of_src (below_append _ _))]
    exact lookup_placed gone r
  have opens : Opens w₁.volume w₁.cwd deps top := by
    rw [cleared.cwd]
    refine fixed _ (within.trans _ _ _ fun l hl => (look l).trans (if_neg ?_))
    rintro rfl
    exact hl (inside_archiveAt s top)
  refine ⟨w₁, ?_, cleared, look, (opens_div storable.src opens ending.2 ((below []).trans dir)).2 rfl,
    (below [ofText markerName]).trans nomarker⟩
  unfold settle
  rw [run_bind, run_change, renamed]
  simp only
  exact run_bind_of_ok run₁

/-- The unpacked tree takes its place, the archive goes and the marker comes. -/
theorem run_settle {deps : Path} {top : Location} (plain : s.Plain deps)
    (fixed : Fixed w.volume w.cwd deps top) (archive : w.volume.lookup (s.archiveAt top) ≠ some .dir)
    (dir : w.volume.lookup (s.unpackedAt top) = some .dir) (gone : Gone w.volume (s.srcAt top))
    (nomarker : w.volume.lookup (ofText markerName :: s.unpackedAt top) = none) :
    let placed := w.volume.relocate (s.unpackedAt top) (s.srcAt top)
    ∃ w₁ w₂, (s.settle deps (s.archivePath deps)).run o w = (.ok (), w₂) ∧
      Moved (fun v u => u = v ∨ u = v.erase (s.archiveAt top)) (w.set placed) w₁ ∧
      (∀ l, w₁.volume.lookup l = if l = s.archiveAt top then none else placed.lookup l) ∧
      Moved (Filed (s.markerAt top)) w₁ w₂ := by
  intro placed
  obtain ⟨w₁, run, cleared, look, src, free⟩ :=
    run_place (o := o) plain.storable fixed archive dir gone nomarker
  obtain ⟨w₂, run₂, filed, _⟩ := run_writeFile_new (o := o) (b := ofText markerText)
    isName_marker plain.usable (by decide) src free
  exact ⟨w₁, w₂, run.trans run₂, cleared, look, filed⟩

section Steps

variable (plain : s.Plain x.deps) (hcwd : w.cwd = x.cwd)
include plain hcwd

theorem run_removeArchive (h : s.Unmarked x w.volume) :
    ∃ w', (removeFileIfThere (s.archivePath x.deps)).run o w = (.ok (), w') ∧
      Keeping (s.Unmarked x) w w' ∧
      ∀ l, w'.volume.lookup l = if l = s.archiveAt x.top then none else w.volume.lookup l := by
  obtain ⟨w', run, moved, look⟩ := run_clearArchive (o := o) plain.storable (hcwd ▸ h.opens) h.archive
  refine ⟨w', run, moved.imp fun u hu => ?_, look⟩
  rcases hu with rfl | rfl
  · exact h
  · exact h.erase_archive

theorem run_removeSrc (h : s.Unmarked x w.volume) :
    ∃ w', (removeTreeIfThere (s.srcDir x.deps)).run o w = (.ok (), w') ∧
      Keeping (s.Unmarked x) w w' ∧ Thins w.volume w'.volume ∧
      Gone w'.volume (s.srcAt x.top) := by
  have fits := plain.storable.fits ".src" (by decide) (by decide) (by decide)
  obtain ⟨w', run, moved, gone⟩ := run_removeTreeIfThere_name (o := o)
    (plain.src) fits.1 fits.2 (h.fixed hcwd) h.src
  exact ⟨w', run, moved.imp fun u hu => h.prune_src hu, moved.now.thins, gone⟩

theorem run_removeUnpacked (h : s.Unmarked x w.volume) :
    ∃ w', (removeTreeIfThere (s.unpackedDir x.deps)).run o w = (.ok (), w') ∧
      Keeping (s.Unmarked x) w w' ∧ Thins w.volume w'.volume ∧
      Gone w'.volume (s.unpackedAt x.top) := by
  obtain ⟨w', run, moved, gone⟩ := run_removeTreeIfThere_name (o := o)
    plain.stem plain.storable.fits_stem.1 plain.storable.fits_stem.2 (h.fixed hcwd) h.unpacked
  exact ⟨w', run, moved.imp fun u hu => h.prune_unpacked hu, moved.now.thins, gone⟩

/-- The clearing of remnants never fails, and leaves the directory empty. -/
theorem run_clearRemnants (h : s.Unmarked x w.volume) :
    ∃ w', (s.clearRemnants x.deps).run o w = (.ok (), w') ∧ Keeping (s.Unmarked x) w w' ∧
      ∀ l, Inside l x.top → w'.volume.lookup l = none := by
  obtain ⟨w₁, run₁, kept₁, look₁⟩ := run_removeArchive (o := o) plain hcwd h
  obtain ⟨w₂, run₂, kept₂, thins₂, gone₂⟩ :=
    run_removeSrc (o := o) plain (kept₁.cwd.trans hcwd) kept₁.now
  obtain ⟨w₃, run₃, kept₃, thins₃, gone₃⟩ :=
    run_removeUnpacked (o := o) plain (kept₂.cwd.trans (kept₁.cwd.trans hcwd)) kept₂.now
  refine ⟨w₃, ?_, (kept₁.append kept₂).append kept₃, fun l hl => ?_⟩
  · refine run_mapError_ok.2 ?_
    rw [run_bind_of_ok run₁, run_bind_of_ok run₂]
    exact run₃
  · cases hx : w₃.volume.lookup l with
    | none => rfl
    | some e =>
      rw [← hx]
      rcases kept₃.now.own l hl (by rw [hx]; rfl) with rfl | hS | hR
      · refine thins₃.none (thins₂.none ?_)
        rw [look₁, if_pos rfl]
      · exact gone₃ l hS
      · exact gone₂.thins thins₃ l hR

/-- A download writes the archive, or fails without having written anything. -/
theorem run_download (sha : String) (h : s.Unmarked x w.volume)
    (empty : ∀ l, Inside l x.top → w.volume.lookup l = none) :
    ∃ r w', (download s.url (s.archivePath x.deps) (some sha)).run o w = (r, w') ∧
      Keeping (s.Unmarked x) w w' ∧ ((∃ e, r = .error e) ∧ ¬ s.Answers sha o ∨
        r = .ok () ∧ s.Fetched x w'.volume ∧ ∃ f, o.digest f.bytes = sha ∧
          w'.volume.lookup (s.archiveAt x.top) = some (.file f)) := by
  have asked : Keeping (s.Unmarked x) w
      { w with trace := .requested (o.exchange s.url).requests :: w.trace } :=
    ⟨rfl, h, [_], rfl, by simp⟩
  unfold download
  rw [run_bind, run_fetch]
  cases hb : fetched s.url (o.exchange s.url).answer with
  | error e =>
    refine ⟨_, _, rfl, asked, .inl ⟨⟨_, rfl⟩, ?_⟩⟩
    rintro ⟨b, hb', _⟩
    rw [hb] at hb'
    cases hb'
  | ok b =>
    simp only
    rw [run_bind, run_verify]
    by_cases hd : o.digest b = sha
    · have fits := plain.storable.fits ".tar.gz" (by decide) (by decide) (by decide)
      obtain ⟨w', run, moved, look⟩ := run_writeFile_new (o := o) (b := b)
        (w := { w with trace := .requested (o.exchange s.url).requests :: w.trace })
        (plain.archive) fits.1 fits.2 (hcwd ▸ h.opens)
        (empty _ (inside_archiveAt s x.top))
      have kept : Keeping (s.Unmarked x) _ w' := moved.imp fun u hu => (h.file_archive empty hu).1
      have here := look (s.archiveAt x.top)
      refine ⟨_, w', ?_, asked.append kept, .inr ⟨rfl, (h.file_archive empty moved.now).2,
        ⟨b, plainMode, none⟩, hd, here.trans (if_pos rfl)⟩⟩
      simp only [if_pos hd]
      exact run_mapError_ok.2 run
    · simp only [if_neg hd]
      refine ⟨_, _, rfl, asked, .inl ⟨⟨_, rfl⟩, ?_⟩⟩
      rintro ⟨b', hb', hd'⟩
      rw [hb] at hb'
      cases hb'
      exact hd hd'

theorem run_extract {f : File} (h : s.Unmarked x w.volume) (g : s.Fetched x w.volume)
    (hf : w.volume.lookup (s.archiveAt x.top) = some (.file f))
    (hu : s.UnpacksTo x T (o.archive f.bytes)) :
    ∃ w', (extract (s.archivePath x.deps) x.deps).run o w = (.ok (), w') ∧
      Keeping (s.Unmarked x) w w' ∧ Grows (s.unpackedAt x.top) w.volume w'.volume ∧
      w'.volume.lookup (s.unpackedAt x.top) = some .dir ∧
      w'.volume.tree (s.unpackedAt x.top) = T := by
  have fits := plain.storable.fits ".tar.gz" (by decide) (by decide) (by decide)
  have seen : w.volume.stat w.cwd (s.archivePath x.deps) = .ok (s.archiveAt x.top, .file f) :=
    stat_eq (plain.archive) fits.1 fits.2 (hcwd ▸ h.opens) hf (by simp)
  obtain ⟨w', run, moved, dir, tree⟩ := hu o w hcwd g
  refine ⟨w', ?_, moved.imp fun u hu => h.grows hu, moved.now, dir, tree⟩
  unfold extract
  rw [run_bind, run_mapError, run_ask, seen]
  exact run_mapError_ok.2 run

/-- Once the archive is there, the rest goes through and ends with the marker. -/
theorem run_unpack {f : File} (h : s.Unmarked x w.volume) (g : s.Fetched x w.volume)
    (hf : w.volume.lookup (s.archiveAt x.top) = some (.file f))
    (hu : s.UnpacksTo x T (o.archive f.bytes)) :
    ∃ w', (s.unpack x.deps (s.archivePath x.deps)).run o w = (.ok (), w') ∧
      Keeping (s.Sound x T) w w' ∧ (w'.volume.lookup (s.markerAt x.top)).isSome := by
  obtain ⟨w₁, run₁, kept₁, grown, dir, tree⟩ := run_extract plain hcwd h g hf hu
  have cwd₁ := kept₁.cwd.trans hcwd
  have gone : Gone w₁.volume (s.srcAt x.top) := fun j hj => by
    rw [grown.outside j (not_unpacked_of_src hj)]
    exact g.alone j hj.inside (ne_archiveAt_of_src hj)
  obtain ⟨placed, below, left⟩ := kept₁.now.place gone dir grown.marker
  obtain ⟨w₃, w₄, settled, cleared₃, look₃, moved₄⟩ := run_settle (o := o) plain
    (kept₁.now.fixed cwd₁) kept₁.now.archive dir gone grown.marker
  have kept₃ : Keeping (s.Unmarked x) _ w₃ := cleared₃.imp fun u hu => by
    rcases hu with rfl | rfl
    · exact placed
    · exact placed.erase_archive
  have dir₃ : w₃.volume.lookup (s.srcAt x.top) = some .dir := by
    rw [look₃, if_neg (ne_archiveAt_of_src (below_refl _))]
    exact (below []).trans dir
  have tree₃ : w₃.volume.tree (s.srcAt x.top) = T := by
    rw [← tree]
    funext r
    unfold Volume.tree
    rw [look₃, if_neg (ne_archiveAt_of_src (below_append _ _))]
    exact congrArg _ (below r)
  have gone₃ : Gone w₃.volume (s.unpackedAt x.top) := left.congr fun j hj => by
    rw [look₃, if_neg (ne_archiveAt_of_unpacked hj)]
  have archive₃ : w₃.volume.lookup (s.archiveAt x.top) = none := by rw [look₃, if_pos rfl]
  have marked : ∀ u, Filed (s.markerAt x.top) w₃.volume u → s.Sound x T u ∧
      (u.lookup (s.markerAt x.top)).isSome := by
    rw [← tree₃]
    exact fun u hu => kept₃.now.complete archive₃ gone₃ dir₃ hu
  have kept₄ : Keeping (s.Sound x T) w₃ w₄ := moved₄.imp fun u hu => (marked u hu).1
  have kept₂ : Keeping (s.Unmarked x) w₁ _ := .set placed
  have before : Keeping (s.Sound x T) w w₃ :=
    ((kept₁.append kept₂).append kept₃).imp fun u hu => hu.sound
  refine ⟨w₄, ?_, before.append kept₄, (marked _ moved₄.now).2⟩
  unfold unpack
  rw [run_bind_of_ok run₁]
  exact run_mapError_ok.2 settled

/-- Without a marker, the directory is made and cleared whatever was left in it. -/
theorem run_prepare (h : s.Sound x T w.volume) (hm : w.volume.lookup (s.markerAt x.top) = none) :
    ∃ w₁ w₂, (ensureDir x.deps).run o w = (.ok (), w₁) ∧
      (s.clearRemnants x.deps).run o w₁ = (.ok (), w₂) ∧ Keeping (s.Sound x T) w w₂ ∧
      s.Unmarked x w₂.volume ∧ ∀ l, Inside l x.top → w₂.volume.lookup l = none := by
  have way : Way w.volume w.cwd x.deps x.base x.names := hcwd ▸ h.around.way
  obtain ⟨w₁, run₁, paved, way₁⟩ := run_ensureDir (o := o) way
  have kept₁ : Keeping (s.Sound x T) w w₁ := paved.imp fun u hu => h.paved hu
  have cwd₁ : w₁.cwd = x.cwd := kept₁.cwd.trans hcwd
  have unmarked : s.Unmarked x w₁.volume := by
    refine ⟨kept₁.now.toShaped, cwd₁ ▸ way₁.opens, ?_⟩
    rcases paved.now (s.markerAt x.top) with e | ⟨_, _, hb⟩
    · rw [e, hm]
    · exact absurd hb (inside_markerAt s x.top).not_above
  obtain ⟨w₂, run₂, kept₂, empty⟩ := run_clearRemnants (o := o) plain cwd₁ unmarked
  exact ⟨w₁, w₂, run₁, run₂, kept₁.append (kept₂.imp fun u hu => hu.sound), kept₂.now, empty⟩

/-- Every body with the digest is an archive that unpacks to the tree. -/
def Trusted (s : Source) (x : Site) (sha : String) (T : Location → Option Entry) (o : Outside) :
    Prop :=
  ∀ b, o.digest b = sha → s.UnpacksTo x T (o.archive b)

/-- One acquisition keeps the invariant at every step, and goes through if it gets its answer. -/
theorem run_acquire_sound {sha : String} (pinned : s.sha256 = some sha)
    (trusted : s.Trusted x sha T o) (h : s.Sound x T w.volume) :
    ∃ r w', (s.acquire x.deps).run o w = (r, w') ∧ Keeping (s.Sound x T) w w' ∧
      (s.Answers sha o → (∃ a, r = .ok a) ∧ (w'.volume.lookup (s.markerAt x.top)).isSome) := by
  have seen := h.isExtracted_iff plain
  rw [← hcwd] at seen
  by_cases hx : s.isExtracted x.deps w.volume w.cwd = true
  · exact ⟨.ok .cached, w, run_acquire_cached hx, ⟨rfl, h, [], rfl, by simp⟩,
      fun _ => ⟨⟨_, rfl⟩, seen.1 hx⟩⟩
  · have hm : w.volume.lookup (s.markerAt x.top) = none := by
      simpa [hx] using seen
    obtain ⟨w₁, w₂, run₁, run₂, kept₂, unmarked, empty⟩ := run_prepare (o := o) plain hcwd h hm
    obtain ⟨r, w₃, run₃, kept₃, result⟩ := run_download (o := o) plain
      (kept₂.cwd.trans hcwd) sha unmarked empty
    have before : Keeping (s.Sound x T) w w₃ := kept₂.append (kept₃.imp fun u hu => hu.sound)
    have made : (io (ensureDir x.deps)).run o w = (.ok (), w₁) := run_mapError_ok.2 run₁
    have first : (s.fetchArchive x.deps).run o w = (r, w₃) := by
      unfold fetchArchive
      rw [run_bind_of_ok made, run_bind_of_ok run₂, pinned, run₃]
    rw [run_acquire (by simpa using hx)]
    rcases result with ⟨⟨e, rfl⟩, unanswered⟩ | ⟨rfl, fetched, f, hd, hf⟩
    · exact ⟨.error e, w₃, run_bind_of_error first, before, fun g => absurd g unanswered⟩
    · obtain ⟨w₄, run₄, kept₄, marked⟩ := run_unpack (o := o) plain (before.cwd.trans hcwd)
        kept₃.now fetched hf (trusted f.bytes hd)
      refine ⟨.ok .downloaded, w₄, ?_, before.append kept₄, fun _ => ⟨⟨_, rfl⟩, marked⟩⟩
      rw [run_bind_of_ok first, run_bind_of_ok run₄]
      rfl

end Steps

/-- The volumes that acquisitions leave, each run to its end or cut off after any of its steps. -/
inductive Reached (s : Source) (x : Site) (sha : String) (T : Location → Option Entry) :
    Volume → Prop
  | start : Reached s x sha T x.start
  | ended {o : Outside} {w : World} (trusted : s.Trusted x sha T o) (before : Reached s x sha T w.volume)
      (cwd : w.cwd = x.cwd) : Reached s x sha T ((s.acquire x.deps).run o w).2.volume
  | cut {o : Outside} {w : World} {v : Volume} (trusted : s.Trusted x sha T o) (before : Reached s x sha T w.volume)
      (cwd : w.cwd = x.cwd) (fresh : w.trace = [])
      (step : Event.changed v ∈ ((s.acquire x.deps).run o w).2.trace) : Reached s x sha T v

theorem sound_start (s : Source) (x : Site) (T : Location → Option Entry) :
    s.Sound x T x.start := by
  have none : ∀ l, Inside l x.top → x.start.lookup l = none := x.empty
  refine ⟨⟨fun l _ => .inl rfl, fun l hl hsome => ?_, ?_, ?_, ?_⟩, .inl x.empty, fun hm => ?_⟩
  · rw [none l hl] at hsome
    cases hsome
  · simp [none _ (inside_archiveAt s x.top)]
  · exact .inl fun j hj => none j hj.inside
  · exact .inl fun j hj => none j hj.inside
  · rw [none _ (inside_markerAt s x.top)] at hm
    cases hm

theorem Reached.sound {sha : String} (plain : s.Plain x.deps) (pinned : s.sha256 = some sha)
    (h : Reached s x sha T v) : s.Sound x T v := by
  induction h with
  | start => exact sound_start s x T
  | ended trusted _ cwd ih =>
    obtain ⟨_, _, run, kept, _⟩ := run_acquire_sound plain cwd pinned trusted ih
    rw [run]
    exact kept.now
  | @cut o w v trusted _ cwd fresh step ih =>
    obtain ⟨_, w', run, kept, _⟩ := run_acquire_sound plain cwd pinned trusted ih
    rw [run] at step
    obtain ⟨new, hnew, sound⟩ := kept.passed
    rw [fresh, List.append_nil] at hnew
    exact sound v (hnew ▸ step)

/-- However often acquisitions have been cut off or have failed, the source counts as extracted only
with its marker, and then it is complete. And an acquisition that is not cut off, and gets a body
with the digest, ends with the marker. -/
theorem acquire_crash_safe {sha : String} (plain : s.Plain x.deps) (pinned : s.sha256 = some sha)
    (h : Reached s x sha T v) :
    (s.isExtracted x.deps v x.cwd = true ↔ (v.lookup (s.markerAt x.top)).isSome) ∧
      ((v.lookup (s.markerAt x.top)).isSome → s.Complete T x.top v) ∧
      ∀ (o : Outside) w, s.Trusted x sha T o → s.Answers sha o → w.volume = v → w.cwd = x.cwd →
        ∃ a w', (s.acquire x.deps).run o w = (.ok a, w') ∧
          s.isExtracted x.deps w'.volume w'.cwd = true := by
  have sound := h.sound plain pinned
  refine ⟨sound.isExtracted_iff plain, sound.marked, ?_⟩
  rintro o w trusted answers rfl cwd
  obtain ⟨r, w', run, kept, result⟩ := run_acquire_sound plain cwd pinned trusted sound
  obtain ⟨⟨a, rfl⟩, marked⟩ := result answers
  refine ⟨a, w', run, ?_⟩
  rw [kept.cwd, cwd]
  exact (kept.now.isExtracted_iff plain).2 marked

section Sample

def pinnedDemo : Source := ⟨"demo", "0.1.0", "http://host/demo.tar.gz", some "digest"⟩

/-- A directory below the root of an empty volume. -/
def emptySite : Site where
  deps := "/d"
  cwd := []
  start := .empty
  base := []
  names := [ofText "d"]
  way := {
    usable := checkPath_ok.2 (by decide)
    leads := ⟨0, [], by decide, by decide, .done⟩
    there := rfl
    steps := by
      intro s hs
      cases List.mem_singleton.1 hs
      exact ⟨by decide, by decide, by decide⟩
    free := by
      intro l _ hi
      cases l with
      | nil => exact absurd rfl hi.2
      | cons n d => exact .inl rfl
    ends := by decide }
  empty := by
    intro l hi
    cases l with
    | nil => exact absurd (hi.1.antisymm (below_root _)) hi.2
    | cons n d => rfl

def smallFile : Member := ⟨ofText "demo-0.1.0/f", .file ⟨[1], false⟩, none⟩

def smallDir : Member := ⟨ofText "demo-0.1.0/", .dir false, none⟩

def smallArchive : Archive := ⟨[smallDir, smallFile], true⟩

def smallTree (r : Location) : Option Entry :=
  if r = [ofText "f"] then some (.file ⟨[1], plainMode, none⟩)
  else if r = [] then some .dir else none

theorem plain_demo : pinnedDemo.Plain emptySite.deps := by
  refine ⟨⟨by decide, by decide⟩, by decide, checkPath_ok.2 (by decide)⟩

section Small

variable {v u : Volume} {w : World}

def smallRoot : Location := [ofText "demo-0.1.0", ofText "d"]

def smallPlace : Location := ofText "f" :: smallRoot

/-- What the members of the small archive do to a volume, step by step. -/
def smallSteps (v : Volume) : Volume × Volume × Volume :=
  let v₁ := v.put smallRoot .dir
  let v₂ := v₁.put smallPlace (.file ⟨[], plainMode, none⟩)
  (v₁, v₂, v₂.append smallPlace [1])

theorem lookup_smallSteps (v : Volume) (l : Location) :
    ((smallSteps v).1.lookup l = if l = smallRoot then some .dir else v.lookup l) ∧
      ((smallSteps v).2.1.lookup l = if l = smallPlace then some (.file ⟨[], plainMode, none⟩)
        else (smallSteps v).1.lookup l) ∧
      (smallSteps v).2.2.lookup l = if l = smallPlace then some (.file ⟨[1], plainMode, none⟩)
        else (smallSteps v).1.lookup l := by
  have second := lookup_put_if (smallSteps v).1 (by decide : smallPlace ≠ [])
    (.file ⟨[], plainMode, none⟩)
  have third := lookup_adjust_new (fun f => { f with bytes := f.bytes ++ [1] }) second rfl
  exact ⟨lookup_put_if v (by decide : smallRoot ≠ []) .dir l, second l, third l⟩

theorem opens_root (v : Volume) : Opens v [] (Path.mk [slash]) [] :=
  ⟨0, by decide, by
    rw [show (Path.mk [slash]).segments = [] by decide]
    exact .done⟩

theorem smallSteps_within (v : Volume) : Within [ofText "d"] v (smallSteps v).1 := by
  intro l hl
  rw [(lookup_smallSteps v l).1, if_neg]
  rintro rfl
  exact hl (by decide)

/-- The directory is there, with room for the tree. -/
structure Room (v : Volume) : Prop where
  fixed : Fixed v [] (Path.ofText "/d") [ofText "d"]
  top : v.lookup [ofText "d"] = some .dir
  free : Gone v smallRoot

theorem Fetched.room (g : pinnedDemo.Fetched emptySite v) : Room v where
  fixed := g.around.fixed g.opens
  top := (g.around.way.opened g.opens).2 _ (below_refl _) ⟨below_root _, by decide⟩
  free _ hj := g.alone _ hj.inside (ne_archiveAt_of_unpacked (s := pinnedDemo) hj)

variable (g : Room v)
include g

theorem Room.entryAt (h : Within [ofText "d"] v u) :
    u.entryAt [] (Path.ofText "/d") = .ok ([ofText "d"], .dir) := by
  refine (entryAt_div (p := ⟨[slash]⟩) (n := "d") (by decide)).2
    ⟨checkPath_ok.2 (by decide), by decide, [], opens_root u, rfl, ?_⟩
  rw [h _ fun h => h.2 rfl]
  exact g.top

theorem run_smallDir (hv : w.volume = v) (hcwd : w.cwd = []) :
    (Unpack.putMember (Path.ofText "/d") smallDir).run o w = (.ok (), w.set (smallSteps v).1) := by
  have top : w.volume.entryAt w.cwd (Path.ofText "/d") = .ok ([ofText "d"], .dir) := by
    rw [hv, hcwd]
    exact g.entryAt (.refl _ _)
  have free : v.lookup smallRoot = none := g.free _ (below_refl _)
  have made : v.makeDir [] (Path.ofText "/d" / "demo-0.1.0") = .ok (smallSteps v).1 :=
    makeDir_new (by decide) (checkPath_ok.2 (by decide)) (by decide) g.fixed.opens free
  rw [Unpack.run_putMember [ofText "demo-0.1.0"] (by decide) (by decide) top
    (stat_of_entryAt top (by simp)) (below_refl _)]
  exact Unpack.run_makeDirAt (by rw [hv, hcwd]; exact made)

theorem run_smallFile (hv : w.volume = (smallSteps v).1) (hcwd : w.cwd = []) :
    (Unpack.putMember (Path.ofText "/d") smallFile).run o w =
      (.ok (), (w.set (smallSteps v).2.1).set (smallSteps v).2.2) := by
  have within := smallSteps_within v
  have opens := g.fixed _ within
  have top : w.volume.entryAt w.cwd (Path.ofText "/d") = .ok ([ofText "d"], .dir) := by
    rw [hv, hcwd]
    exact g.entryAt within
  have dir : (smallSteps v).1.lookup smallRoot = some .dir := (lookup_smallSteps v _).1
  have parent : w.volume.entryAt w.cwd (Path.ofText "/d/demo-0.1.0") = .ok (smallRoot, .dir) := by
    rw [hv, hcwd]
    exact (entryAt_div (p := Path.ofText "/d") (n := "demo-0.1.0") (by decide)).2
      ⟨checkPath_ok.2 (by decide), by decide, _, opens, rfl, dir⟩
  have root : Opens (smallSteps v).1 [] (Path.ofText "/d/demo-0.1.0") smallRoot :=
    (opens_div (p := Path.ofText "/d") (n := "demo-0.1.0") (by decide) opens (by decide) dir).2 rfl
  have free : (smallSteps v).1.lookup smallPlace = none := by
    rw [(lookup_smallSteps v _).1, if_neg (by decide)]
    exact g.free _ (by decide)
  have opened : (smallSteps v).1.openNew [] (Path.ofText "/d/demo-0.1.0" / "f") plainMode =
      .ok (smallPlace, (smallSteps v).2.1) :=
    openNew_new (by decide) (checkPath_ok.2 (by decide)) (by decide) root plainMode free
  rw [Unpack.run_putMember [ofText "demo-0.1.0", ofText "f"] (by decide) (by decide) parent
    (stat_of_entryAt top (by simp)) (below_cons _ _)]
  exact Unpack.run_putFile (by rw [hv, hcwd]; exact opened)

theorem run_smallArchive (hv : w.volume = v) (hcwd : w.cwd = []) :
    (Unpack.unpack smallArchive (Path.ofText "/d")).run o w =
      (.ok (), ((w.set (smallSteps v).1).set (smallSteps v).2.1).set (smallSteps v).2.2) := by
  have top : w.volume.entryAt w.cwd (Path.ofText "/d") = .ok ([ofText "d"], .dir) := by
    rw [hv, hcwd]
    exact g.entryAt (.refl _ _)
  have soon : smallArchive.members.filter (!Unpack.isLate ·) = [smallDir, smallFile] := by decide
  have late : smallArchive.members.filter Unpack.isLate = [] := by decide
  have both : ([smallDir, smallFile].forM (Unpack.putMember (Path.ofText "/d"))).run o w =
      (.ok (), ((w.set (smallSteps v).1).set (smallSteps v).2.1).set (smallSteps v).2.2) := by
    have second : (Unpack.putMember (Path.ofText "/d") smallFile).run o (w.set (smallSteps v).1) = _ :=
      run_smallFile g rfl hcwd
    rw [forM_cons, run_bind_of_ok (run_smallDir g hv hcwd), forM_cons, run_bind_of_ok second]
    rfl
  rw [Unpack.run_unpack top, soon, late, List.mergeSort_nil,
    show Location.path [ofText "d"] = Path.ofText "/d" by decide, run_bind_of_ok both]
  rfl

theorem smallSteps_grow (hu : ∀ l, l ≠ smallPlace → u.lookup l = (smallSteps v).1.lookup l) :
    Grows smallRoot v u := by
  refine ⟨fun l hl => ?_, .inr ?_, ?_⟩
  · have hp : l ≠ smallPlace := by
      rintro rfl
      exact hl (by decide)
    have hr : l ≠ smallRoot := by
      rintro rfl
      exact hl (below_refl _)
    rw [hu l hp, (lookup_smallSteps v l).1, if_neg hr]
  · rw [hu _ (by decide), (lookup_smallSteps v _).1, if_pos rfl]
  · rw [hu _ (by decide), (lookup_smallSteps v _).1, if_neg (by decide)]
    exact g.free _ (by decide)

theorem smallSteps_tree : (smallSteps v).2.2.tree smallRoot = smallTree := by
  funext r
  unfold Volume.tree smallTree
  rw [(lookup_smallSteps v _).2.2]
  by_cases hf : r = [ofText "f"]
  · subst hf
    rfl
  have hp : r ++ smallRoot ≠ smallPlace := fun e =>
    hf (List.append_cancel_right (e : r ++ smallRoot = [_] ++ smallRoot))
  rw [if_neg hf, if_neg hp, (lookup_smallSteps v _).1]
  by_cases hr : r = []
  · subst hr
    rfl
  have hroot : r ++ smallRoot ≠ smallRoot := fun e => hr (List.append_left_eq_self.1 e)
  rw [if_neg hr, if_neg hroot, g.free _ (below_append r smallRoot)]
  rfl

end Small

/-- Where there is room, the small archive gives its tree, and nothing else is touched. -/
theorem smallArchive_grows (cwd : w.cwd = []) (g : Room w.volume) :
    ∃ w', (Unpack.unpack smallArchive (Path.ofText "/d")).run o w = (.ok (), w') ∧
      Moved (Grows smallRoot) w w' ∧ w'.volume.lookup smallRoot = some .dir ∧
      w'.volume.tree smallRoot = smallTree := by
  have h₁ : Keeping (Grows smallRoot w.volume) w (w.set (smallSteps w.volume).1) :=
    .set (smallSteps_grow g fun _ _ => rfl)
  have h₂ : Keeping (Grows smallRoot w.volume) (w.set (smallSteps w.volume).1)
      ((w.set (smallSteps w.volume).1).set (smallSteps w.volume).2.1) :=
    .set (smallSteps_grow g fun l hl => by rw [(lookup_smallSteps _ l).2.1, if_neg hl])
  have last : Grows smallRoot w.volume (smallSteps w.volume).2.2 :=
    smallSteps_grow g fun l hl => by rw [(lookup_smallSteps _ l).2.2, if_neg hl]
  refine ⟨_, run_smallArchive g rfl cwd, ((h₁.append h₂).append (.set last)).imp fun _ hu => hu, ?_,
    smallSteps_tree g⟩
  exact (lookup_smallSteps _ _).2.2.trans ((if_neg (by decide)).trans (lookup_smallSteps _ _).1)

theorem smallArchive_unpacks : pinnedDemo.UnpacksTo emptySite smallTree smallArchive :=
  fun _ _ cwd g => smallArchive_grows cwd (Fetched.room g)

/-- A server that always answers with the archive. -/
def answering : Outside where
  exchange _ := ⟨[], .ok ⟨200, "OK", some [7]⟩⟩
  digest b := if b = [7] then "digest" else ""
  archive _ := smallArchive
  spawn _ _ v := .ok ⟨v, [], .success⟩

def seenBy (v : Volume) : World := ⟨⟨v, [], Path.ofText "/"⟩, [], [], []⟩

/-- Whether a step has left the archive with a part of what is in it. -/
def isPartly : Event → Bool
  | .changed v => (v.lookup (pinnedDemo.archiveAt emptySite.top)).isSome &&
      (v.lookup (pinnedDemo.unpackedAt emptySite.top)).isSome
  | _ => false

/-- Cut off while it unpacks, an acquisition does not count, and the next one makes up for it. -/
theorem acquire_crash_safe_partly : ∃ v, Reached pinnedDemo emptySite "digest" smallTree v ∧
    isPartly (.changed v) = true ∧ pinnedDemo.isExtracted "/d" v [] = false ∧
    ∃ a w', (pinnedDemo.acquire "/d").run answering (seenBy v) = (.ok a, w') ∧
      pinnedDemo.isExtracted "/d" w'.volume w'.cwd = true := by
  have trusted : pinnedDemo.Trusted emptySite "digest" smallTree answering :=
    fun _ _ => smallArchive_unpacks
  have some : ((pinnedDemo.acquire "/d").run answering (seenBy .empty)).2.trace.any
      isPartly = true := by
    decide +kernel
  obtain ⟨e, he, hp⟩ := List.any_eq_true.1 some
  cases e with
  | changed v =>
    have reached : Reached pinnedDemo emptySite "digest" smallTree v :=
      .cut (w := seenBy .empty) trusted .start rfl rfl he
    obtain ⟨seen, complete, next⟩ := acquire_crash_safe plain_demo rfl reached
    refine ⟨v, reached, hp, ?_, next answering (seenBy v) trusted ⟨[7], rfl, rfl⟩ rfl rfl⟩
    refine Bool.eq_false_iff.2 fun h => ?_
    have := (complete (seen.1 h)).archive
    simp [isPartly, this] at hp
  | requested => cases hp
  | started => cases hp

end Sample
end Source
end PinnedDeps
