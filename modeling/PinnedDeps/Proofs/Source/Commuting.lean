import PinnedDeps.Proofs.Action.Paired
import PinnedDeps.Proofs.Action.Remaking
import PinnedDeps.Proofs.Source.Wedging

/-!
Acquisitions beside each other. What an acquisition does to the entries of its source is decided by
these entries and by what the server gives, so two acquisitions with other names may be done in
either order.
-/
namespace PinnedDeps

open Bytes (ofText)
open Volume PinnedDeps.Action

namespace Source

variable {s : Source} {o : Outside} {w u w' u' : World} {deps : Path} {cwd top : Location} {v : Volume}
  {f : File} {a : Archive}

/-- The directory is there, whatever is changed in it its path leads to it, and everything stands in
directories. -/
structure Based (deps : Path) (cwd top : Location) (v : Volume) : Prop extends Ground top v where
  fixed : Fixed v cwd deps top
  start : Below top (startOf cwd deps.bytes)

theorem Based.next {u : Volume} (h : Based deps cwd top v) (within : Within top v u)
    (upright : Upright u) : Based deps cwd top u :=
  ⟨⟨upright, (within top fun g => g.2 rfl).trans h.there⟩, h.fixed.within within, h.start⟩

theorem Based.opens (h : Based deps cwd top v) : Opens v cwd deps top := h.fixed.opens

/-- Wherever nothing of the source stands, the archive unpacks in the same way, to a tree that shares
no file with anything beside it. -/
def Uniform (s : Source) (deps : Path) (cwd top : Location) (a : Archive) : Prop :=
  ∀ (o : Outside) w u, w.cwd = cwd → u.cwd = cwd → Based deps cwd top w.volume → Based deps cwd top u.volume →
    Gone w.volume (s.unpackedAt top) → Gone w.volume (s.srcAt top) →
    Gone u.volume (s.unpackedAt top) → Gone u.volume (s.srcAt top) →
      ((Unpack.unpack a deps).run o u).1.isOk = ((Unpack.unpack a deps).run o w).1.isOk ∧
        Remade (Below · (s.unpackedAt top)) ((Unpack.unpack a deps).run o w).2.volume
          ((Unpack.unpack a deps).run o u).2.volume

/-- The archive is there, and no tree of the source. -/
structure Loaded (s : Source) (deps : Path) (cwd top : Location) (f : File) (w : World) : Prop where
  here : w.cwd = cwd
  based : Based deps cwd top w.volume
  stored : s.Stored deps cwd top f w.volume

/-- The archive and what it has been unpacked to are there, and the sources are not in their place
yet. -/
structure Unpacked (s : Source) (deps : Path) (cwd top : Location) (f : File) (w : World) : Prop where
  here : w.cwd = cwd
  based : Based deps cwd top w.volume
  archive : w.volume.lookup (s.archiveAt top) = some (.file f)
  src : Gone w.volume (s.srcAt top)
  tree : TreeAt w.volume (s.unpackedAt top)
  nomarker : w.volume.lookup (ofText markerName :: s.unpackedAt top) = none

theorem Unpacked.opens (h : s.Unpacked deps cwd top f w) : Opens w.volume w.cwd deps top :=
  h.here ▸ h.based.opens

/-- If the trees are alike, so is all that the source owns. -/
theorem Unpacked.remade (hw : s.Unpacked deps cwd top f w) (hu : s.Unpacked deps cwd top f u)
    (alone : f.peers = none) (trees : Remade (Below · (s.unpackedAt top)) w.volume u.volume) :
    Remade (s.Own top) w.volume u.volume := by
  have archives : Remade (· = s.archiveAt top) w.volume u.volume := by
    refine remade_unshared (fun l hl => ?_) fun l hl g hg => ?_
    · rw [hl, hw.archive, hu.archive]
    · rw [hl, hw.archive] at hg
      cases hg
      exact alone
  have sources : Remade (Below · (s.srcAt top)) w.volume u.volume :=
    remade_unshared (fun l hl => (hu.src l hl).trans (hw.src l hl).symm)
      fun l hl => unshared_of_none (hw.src l hl)
  exact archives.union (trees.union sources)

section Settle

variable (storable : s.Storable deps)
include storable

/-- With no tree to be moved nothing is done; otherwise it takes its place, and what is left to do is
to mark it. -/
theorem run_settle_unpacked (h : s.Unpacked deps cwd top f w) :
    (w.volume.lookup (s.unpackedAt top) = none ∧
      (s.settle deps (s.archivePath deps)).run o w = (.error (.system .noEntry), w)) ∨
    (w.volume.lookup (s.unpackedAt top) = some .dir ∧ ∃ w',
      (s.settle deps (s.archivePath deps)).run o w =
        (writeFile (s.marker deps) (ofText markerText)).run o w' ∧
      (∀ l, w'.volume.lookup l = if l = s.archiveAt top then none else
        (w.volume.relocate (s.unpackedAt top) (s.srcAt top)).lookup l) ∧
      Opens w'.volume w'.cwd (s.srcDir deps) (s.srcAt top) ∧
      w'.volume.lookup (s.markerAt top) = none) := by
  have src := storable.fits ".src" (by decide) (by decide) (by decide)
  rcases h.tree with gone | dir
  · have none := gone _ (below_refl _)
    refine .inl ⟨none, ?_⟩
    unfold settle
    rw [run_bind, run_change, show w.volume.rename w.cwd (s.unpackedDir deps) (s.srcDir deps) = _ from
      rename_missing storable.stem storable.src storable.fits_stem.1 storable.fits_stem.2 src.1 src.2
        h.opens none]
  · have stored : w.volume.lookup (s.archiveAt top) ≠ some .dir := by simp [h.archive]
    obtain ⟨w', run, -, look, opens, free⟩ :=
      run_place (o := o) storable (h.here ▸ h.based.fixed) stored dir h.src h.nomarker
    exact .inr ⟨dir, w', run, look, opens, free⟩

/-- The same tree takes its place in the same way, whatever stands beside it. -/
theorem settle_both (alone : f.peers = none) (hw : s.Unpacked deps cwd top f w)
    (hu : s.Unpacked deps cwd top f u)
    (trees : Remade (Below · (s.unpackedAt top)) w.volume u.volume) :
    ((s.settle deps (s.archivePath deps)).run o u).1 =
        ((s.settle deps (s.archivePath deps)).run o w).1 ∧
      Remade (s.Own top) ((s.settle deps (s.archivePath deps)).run o w).2.volume
        ((s.settle deps (s.archivePath deps)).run o u).2.volume := by
  have own := hw.remade hu alone trees
  have same := trees.plain _ (below_refl _)
  rcases run_settle_unpacked (o := o) storable hw with ⟨none, run⟩ | ⟨dir, w', run, look, opens, free⟩
  · rcases run_settle_unpacked (o := o) storable hu with ⟨_, run'⟩ | ⟨dir', _⟩
    · rw [run, run']
      exact ⟨rfl, own⟩
    · rw [none, dir'] at same
      cases same
  rcases run_settle_unpacked (o := o) storable hu with ⟨none', _⟩ | ⟨_, u', run', look', opens', free'⟩
  · rw [dir, none'] at same
    cases same
  have placed : Remade (s.Own top) w'.volume u'.volume := by
    refine Remade.assign (own.relocate (by simp [unpackedAt]) (by simp [srcAt]) ?_ ?_
      (fun _ => own_of_unpacked) (fun _ => own_of_src) hw.src hu.src) look look' (by simp)
    · exact not_unpacked_of_src (below_refl _)
    · exact not_src_of_unpacked (below_refl _)
  rw [run, run']
  rcases run_writeFile_both (o := o) (b := ofText markerText) isName_marker opens opens'
    (vacant_of_lookup isName_marker opens free) (vacant_of_lookup isName_marker opens' free') with
    ⟨x, stops, stops'⟩ | ⟨w₂, u₂, marks, marks', marked, marked'⟩
  · rw [show (writeFile (s.marker deps) _).run o w' = _ from stops,
      show (writeFile (s.marker deps) _).run o u' = _ from stops']
    exact ⟨rfl, placed⟩
  · rw [show (writeFile (s.marker deps) _).run o w' = _ from marks,
      show (writeFile (s.marker deps) _).run o u' = _ from marks']
    refine ⟨rfl, placed.assign marked marked' fun g hg => ?_⟩
    cases hg
    rfl

end Settle

section Named

variable (named : s.Named)
include named

theorem stays_upright_clearRemnants :
    Stays (fun w => Upright w.volume) (s.clearRemnants deps) := by
  have removeTree : ∀ p : Path, p.EndsInName → Stays (fun w => Upright w.volume) (removeTreeIfThere p) :=
    fun p hp o w h => (treeRemoved (o := o) (w := w) hp rfl).upright h
  refine stays_mapError _ (stays_bind (fun o w h => ?_) fun _ => stays_bind ?_ fun _ => ?_)
  · exact (upright_removeFileIfThere (s.archivePath deps) o w rfl).now h
  · exact removeTree _ (srcDir_endsInName s deps)
  · exact removeTree _ (Path.endsInName_div deps named.stem)

theorem clearRemnants_based (based : Based deps w.cwd top w.volume) :
    Moved (Sheds (s.Own top)) w ((s.clearRemnants deps).run o w).2 ∧
      Based deps w.cwd top ((s.clearRemnants deps).run o w).2.volume := by
  have trimmed : Moved (Sheds (s.Own top)) w _ :=
    (trims_clearRemnants named o w rfl).imp fun u hu => hu based.opens.led
  exact ⟨trimmed, based.next (trimmed.now.within fun _ => Own.inside)
    (stays_upright_clearRemnants named o w based.upright)⟩

theorem paired_clearRemnants : Paired (Level (s.Own top) deps cwd top) (Level (s.Own top) deps cwd top)
    (s.clearRemnants deps) := by
  refine paired_mapError _ (paired_bind ?_ (fun _ _ h => h) fun _ =>
    paired_bind ?_ (fun _ _ h => h) fun _ => ?_)
  · exact paired_removeFileIfThere named.archive (own_archive s top)
  · exact paired_removeTreeIfThere named.src (own_of_src (below_refl _))
  · exact paired_removeTreeIfThere named.stem (own_of_unpacked (below_refl _))

/-- A download into a free place fails in both worlds, or writes the same archive in both. -/
theorem download_both (hw : Opens w.volume w.cwd deps top) (hu : Opens u.volume u.cwd deps top)
    (free : Vacant w.volume w.cwd (s.archivePath deps))
    (free' : Vacant u.volume u.cwd (s.archivePath deps)) :
    (∃ e w' u', (download s.url (s.archivePath deps) s.sha256).run o w = (.error e, w') ∧
      (download s.url (s.archivePath deps) s.sha256).run o u = (.error e, u')) ∨
    ∃ w' u', (download s.url (s.archivePath deps) s.sha256).run o w = (.ok (), w') ∧
      (download s.url (s.archivePath deps) s.sha256).run o u = (.ok (), u') ∧
      u'.volume.lookup (s.archiveAt top) = w'.volume.lookup (s.archiveAt top) := by
  rcases run_download_cases o s.url (s.archivePath deps) s.sha256 with ⟨e, -, ends⟩ | ⟨b, -, ends⟩
  · exact .inl ⟨e, _, _, ends w, ends u⟩
  · rw [ends w, ends u]
    rcases run_writeFile_both (o := o) (w := asked o s.url w) (u := asked o s.url u) (b := b)
      named.archive hw hu free free' with ⟨x, run, run'⟩ | ⟨w', u', run, run', look, look'⟩
    · exact .inl ⟨.io x, _, _, run_mapError_error.2 ⟨x, rfl, run⟩, run_mapError_error.2 ⟨x, rfl, run'⟩⟩
    · refine .inr ⟨w', u', run_mapError_ok.2 run, run_mapError_ok.2 run', ?_⟩
      exact ((look' _).trans (if_pos rfl)).trans ((look _).trans (if_pos rfl)).symm

theorem download_loads (based : Based deps w.cwd top w.volume)
    (cleared : s.Cleared deps w.cwd w.volume)
    (run : (download s.url (s.archivePath deps) s.sha256).run o w = (.ok (), w')) :
    Moved (Only (s.Own top)) w w' ∧
      ∃ f, s.Accepted o f.bytes ∧ f.peers = none ∧ s.Loaded deps w.cwd top f w' := by
  obtain ⟨loading, stores⟩ := run_download_cleared (o := o) named based.opens.led cleared
  obtain ⟨f, accepted, alone, -, stored, straight⟩ := stores w' run
  rw [run] at loading
  have after := based.next (loading.now.within fun _ => Own.inside) (straight based.there)
  exact ⟨loading, f, accepted, alone, loading.cwd, after, loading.cwd ▸ stored⟩

/-- Once the archive is there, the rest keeps the directory in its place. -/
theorem settle_upright (based : Based deps w.cwd top w.volume) :
    Upright ((s.settle deps (s.archivePath deps)).run o w).2.volume := by
  unfold settle
  rw [run_bind, run_change]
  cases moved : w.volume.rename w.cwd (s.unpackedDir deps) (s.srcDir deps) with
  | error e => exact based.upright
  | ok x =>
    have placed : Based deps w.cwd top x :=
      based.next ((rename_within named based.opens.led moved).1.within fun _ => Own.inside)
        (rename_upright named based.opens.led based.upright based.there moved)
    have trimmed : Moved (Trims (s.Own top) w.cwd deps top) (w.set x)
        ((removeFileIfThere (s.archivePath deps)).run o (w.set x)).2 :=
      trims_removeFileIfThere named.archive (own_archive s top) o (w.set x) rfl
    have straight := upright_removeFileIfThere (s.archivePath deps) o (w.set x) rfl
    have cleared : Based deps w.cwd top _ :=
      placed.next ((trimmed.now placed.opens.led).within fun _ => Own.inside)
        (straight.now placed.upright)
    refine ends_bind (P := fun w => Upright w.volume) cleared.upright fun _ w₁ run₁ => ?_
    have here : w₁.cwd = w.cwd := by
      rw [run₁] at straight
      exact straight.cwd
    rw [run₁] at cleared
    rw [run_writeFile]
    cases opened : w₁.volume.openFile w₁.cwd (s.marker deps) plainMode false with
    | error e => exact cleared.upright
    | ok y =>
      refine Upright.adjust (Upright.openFile cleared.upright ?_ opened).1 _ _
      rw [here, show startOf w.cwd (s.marker deps).bytes = startOf w.cwd deps.bytes from
        (Path.start_div (s.srcDir deps) isName_marker _).trans (Path.start_div deps named.src _)]
      exact cleared.upright.above cleared.there cleared.start

end Named

section Loaded

variable (loaded : s.Loaded deps cwd top f w) (loaded' : s.Loaded deps cwd top f u)
  (tame : s.Tame deps cwd top (o.archive f.bytes))

include loaded tame in
/-- What the archive is unpacked to is put beside it. -/
theorem Loaded.unpacks (usable : Usable cwd) :
    s.Unpacked deps cwd top f ((Unpack.unpack (o.archive f.bytes) deps).run o w).2 := by
  obtain ⟨rfl, based, stored⟩ := loaded
  have grown := tame o w rfl stored.opens stored.unpacked stored.src
  have built := Unpack.unpack_within (o := o) (o.archive f.bytes) based.toGround
    (stored.opens.usable usable) stored.opens
  exact ⟨grown.cwd, based.next built.now.1 built.now.2.upright,
    (grown.now.outside _ archiveAt_not_unpacked).trans stored.archive,
    stored.src.congr fun j hj => grown.now.outside j (not_unpacked_of_src hj), grown.now.tree,
    grown.now.marker⟩

variable (named : s.Named)
include named loaded

theorem Loaded.run_unpack : (s.unpack deps (s.archivePath deps)).run o w =
    match (Unpack.unpack (o.archive f.bytes) deps).run o w with
    | (.error _, w₁) => (.error (.extract (s.archivePath deps) .notUnpacked), w₁)
    | (.ok _, w₁) => ((s.settle deps (s.archivePath deps)).mapError BuildError.io).run o w₁ := by
  obtain ⟨rfl, -, stored⟩ := loaded
  unfold unpack
  rw [run_bind, run_extract_stored named stored, run_mapError]
  rcases (Unpack.unpack (o.archive f.bytes) deps).run o w with ⟨e | _, w₁⟩
  · rfl
  · rfl

variable (usable : Usable cwd)
include tame usable

theorem Loaded.unpack_based : Moved (Only (s.Own top)) w ((s.unpack deps (s.archivePath deps)).run o w).2 ∧
    Based deps cwd top ((s.unpack deps (s.archivePath deps)).run o w).2.volume := by
  have within : Moved (Only (s.Own top)) w _ :=
    unpack_within (o := o) named (loaded.here ▸ loaded.stored) (loaded.here ▸ tame)
  refine ⟨within, loaded.based.next (within.now.within fun _ => Own.inside) ?_⟩
  have unpacked := loaded.unpacks tame usable
  rw [loaded.run_unpack named]
  rcases run : (Unpack.unpack (o.archive f.bytes) deps).run o w with ⟨e | _, w₁⟩
  · rw [run] at unpacked
    exact unpacked.based.upright
  · rw [run] at unpacked
    have based : Based deps w₁.cwd top w₁.volume := by
      rw [unpacked.here]
      exact unpacked.based
    simp only [run_mapError]
    exact settle_upright named based

include loaded'

/-- The same archive is unpacked and put in its place in the same way, whatever stands beside it. -/
theorem Loaded.unpack_both (alone : f.peers = none)
    (uniform : s.Uniform deps cwd top (o.archive f.bytes)) :
    ((s.unpack deps (s.archivePath deps)).run o u).1 =
        ((s.unpack deps (s.archivePath deps)).run o w).1 ∧
      Remade (s.Own top) ((s.unpack deps (s.archivePath deps)).run o w).2.volume
        ((s.unpack deps (s.archivePath deps)).run o u).2.volume := by
  have unpacked := loaded.unpacks tame usable
  have unpacked' := loaded'.unpacks tame usable
  obtain ⟨same, trees⟩ := uniform o w u loaded.here loaded'.here loaded.based loaded'.based
    loaded.stored.unpacked loaded.stored.src loaded'.stored.unpacked loaded'.stored.src
  rw [loaded.run_unpack named, loaded'.run_unpack named]
  rcases run : (Unpack.unpack (o.archive f.bytes) deps).run o w with ⟨x, w₁⟩
  rcases run' : (Unpack.unpack (o.archive f.bytes) deps).run o u with ⟨y, u₁⟩
  rw [run] at unpacked same trees
  rw [run'] at unpacked' same trees
  cases x with
  | error e =>
    cases y with
    | error e' => exact ⟨rfl, unpacked.remade unpacked' alone trees⟩
    | ok _ => cases same
  | ok _ =>
    cases y with
    | error e' => cases same
    | ok _ =>
      have storable : s.Storable deps := ⟨named, loaded.stored.short, loaded.stored.usable⟩
      obtain ⟨settled, remade⟩ := settle_both (o := o) storable alone unpacked unpacked' trees
      simp only [run_mapError, settled]
      exact ⟨trivial, remade⟩

end Loaded

section Fill

variable (named : s.Named) (usable : Usable cwd)
  (tame : ∀ b, s.Accepted o b → s.Tame deps cwd top (o.archive b))
include named usable tame

theorem fill_based (here : w.cwd = cwd) (based : Based deps cwd top w.volume) :
    Moved (Only (s.Own top)) w ((s.fill deps).run o w).2 ∧
      Based deps cwd top ((s.fill deps).run o w).2.volume := by
  subst here
  obtain ⟨clearing, based₁⟩ := clearRemnants_based (o := o) named based
  unfold fill
  rcases run₁ : (s.clearRemnants deps).run o w with ⟨e | _, w₁⟩
  · rw [run₁] at clearing based₁
    rw [run_bind_of_error run₁]
    exact ⟨clearing.imp fun _ h => h.1, based₁⟩
  have cleared := clearRemnants_clears named based.upright run₁
  rw [run₁] at clearing based₁
  rw [run_bind_of_ok run₁]
  have first : Moved (Only (s.Own top)) w w₁ := clearing.imp fun _ h => h.1
  rw [← clearing.cwd] at based₁
  rcases run₂ : (download s.url (s.archivePath deps) s.sha256).run o w₁ with ⟨e | _, w₂⟩
  · have loading := (run_download_cleared (o := o) named based₁.opens.led cleared).1
    rw [run_bind_of_error run₂]
    rw [run₂] at loading
    refine ⟨first.trans Only.trans loading, ?_⟩
    rw [download_failed run₂]
    exact clearing.cwd ▸ based₁
  obtain ⟨loading, f, accepted, -, loaded⟩ := download_loads named based₁ cleared run₂
  rw [clearing.cwd] at loaded
  obtain ⟨unpacking, after⟩ := loaded.unpack_based (tame _ accepted) named usable
  rw [run_bind_of_ok run₂]
  refine ⟨first.trans Only.trans (loading.trans Only.trans (unpacking.bind Only.trans ?_)), ?_⟩
  · exact fun _ w₃ _ => .refl (Only.refl _) w₃
  · refine ends_bind (P := fun w => Based deps _ top w.volume) after fun _ w₃ run₃ => ?_
    rw [run₃] at after
    exact after

/-- From volumes that agree on what the source owns, all that comes after the making of the directory
comes to the same. -/
theorem fill_both (uniform : ∀ b, s.Accepted o b → s.Uniform deps cwd top (o.archive b))
    (level : Level (s.Own top) deps cwd top w u) (based : Based deps cwd top w.volume)
    (based' : Based deps cwd top u.volume) :
    ((s.fill deps).run o u).1 = ((s.fill deps).run o w).1 ∧
      Redone (s.Own top) w.volume ((s.fill deps).run o w).2.volume u.volume
        ((s.fill deps).run o u).2.volume := by
  obtain ⟨same, level₁⟩ := paired_clearRemnants named o w u level
  obtain ⟨clearing, based₁⟩ := clearRemnants_based (o := o) named (level.here ▸ based)
  obtain ⟨clearing', based₁'⟩ := clearRemnants_based (o := o) named (level.here' ▸ based')
  unfold fill
  rcases run₁ : (s.clearRemnants deps).run o w with ⟨x, w₁⟩
  rcases run₁' : (s.clearRemnants deps).run o u with ⟨y, u₁⟩
  rw [run₁] at same level₁ clearing based₁
  rw [run₁'] at same level₁ clearing' based₁'
  obtain rfl : y = x := same
  cases y with
  | error e =>
    rw [run_bind_of_error run₁, run_bind_of_error run₁']
    exact ⟨rfl, .shed clearing.now.2 clearing'.now.2 level₁.agree⟩
  | ok _ =>
    have cleared := clearRemnants_clears named based.upright run₁
    have cleared' := clearRemnants_clears named based'.upright run₁'
    rw [← clearing.cwd] at based₁
    rw [← clearing'.cwd] at based₁'
    rw [run_bind_of_ok run₁, run_bind_of_ok run₁']
    rcases download_both (o := o) named level₁.opens level₁.opens' cleared.archive cleared'.archive with
      ⟨e, w₂, u₂, run₂, run₂'⟩ | ⟨w₂, u₂, run₂, run₂', archives⟩
    · rw [run_bind_of_error run₂, run_bind_of_error run₂', download_failed run₂, download_failed run₂']
      exact ⟨rfl, .shed clearing.now.2 clearing'.now.2 level₁.agree⟩
    obtain ⟨-, f, accepted, alone, loaded⟩ := download_loads named based₁ cleared run₂
    obtain ⟨-, g, -, -, loaded'⟩ := download_loads named based₁' cleared' run₂'
    rw [level₁.here] at loaded
    rw [level₁.here'] at loaded'
    rw [loaded.stored.archive, loaded'.stored.archive] at archives
    cases archives
    obtain ⟨same, remade⟩ := loaded.unpack_both loaded' (tame _ accepted) named usable alone
      (uniform _ accepted)
    rw [run_bind_of_ok run₂, run_bind_of_ok run₂', run_bind, run_bind]
    rcases run₃ : (s.unpack deps (s.archivePath deps)).run o w₂ with ⟨x, w₃⟩
    rcases run₃' : (s.unpack deps (s.archivePath deps)).run o u₂ with ⟨y, u₃⟩
    rw [run₃, run₃'] at same remade
    obtain rfl : y = x := same
    cases y <;> exact ⟨rfl, .remade remade⟩

end Fill

/-- No link stands where the sources or their marker belong. -/
structure Unlinked (s : Source) (top : Location) (v : Volume) : Prop where
  src : ∀ t, v.lookup (s.srcAt top) ≠ some (.link t)
  marker : ∀ t, v.lookup (s.markerAt top) ≠ some (.link t)

theorem Unlinked.congr {u : Volume} (h : s.Unlinked top v) (agree : AgreeOn (s.Own top) v u) :
    s.Unlinked top u := by
  refine ⟨fun t g => h.src t ?_, fun t g => h.marker t ?_⟩
  · exact (agree _ (own_of_src (below_refl _))).symm.trans g
  · exact (agree _ (own_of_src (markerAt_below s top))).symm.trans g

/-- Where no link leads away, the marker is looked for at its place. -/
theorem isExtracted_at (named : s.Named) (opens : Opens v cwd deps top) (unlinked : s.Unlinked top v) :
    s.isExtracted deps v cwd = true ↔ checkPath (s.marker deps) = .ok () ∧
      (ofText (s.stem ++ ".src")).length ≤ nameLimit ∧ v.lookup (s.srcAt top) = some .dir ∧
      (v.lookup (s.markerAt top)).isSome := by
  constructor
  · intro seen
    obtain ⟨l, x, hs⟩ := leadsSomewhere_iff.1 seen
    obtain ⟨L, hL, -, -⟩ := stat_ok.1 hs
    obtain ⟨e, he, there⟩ := stat_div isName_marker hs
    obtain ⟨rfl, dir, short⟩ := he.enters named.src opens unlinked.src
    exact ⟨(reach_ok.1 hL).1, short, dir, there⟩
  · rintro ⟨usable, short, dir, there⟩
    have src : Opens v cwd (s.srcDir deps) (s.srcAt top) := (opens_div named.src opens short dir).2 rfl
    obtain ⟨x, hx⟩ := Option.isSome_iff_exists.1 there
    refine leadsSomewhere_iff.2 ⟨_, _, stat_eq isName_marker usable (by decide) src hx ?_⟩
    rintro t rfl
    exact unlinked.marker t hx

theorem isExtracted_congr {u : Volume} (named : s.Named) (opens : Opens v cwd deps top)
    (opens' : Opens u cwd deps top) (unlinked : s.Unlinked top v) (agree : AgreeOn (s.Own top) v u) :
    s.isExtracted deps u cwd = s.isExtracted deps v cwd := by
  have src := agree (s.srcAt top) (own_of_src (below_refl _))
  have marker := agree (s.markerAt top) (own_of_src (markerAt_below s top))
  rw [Bool.eq_iff_iff, isExtracted_at named opens unlinked,
    isExtracted_at named opens' (unlinked.congr agree), src, marker]

/-- A source that is there has been put into a directory that need not be made. -/
theorem run_ensureDir_extracted (named : s.Named) (upright : Upright w.volume)
    (here : w.volume.lookup w.cwd = some .dir) (seen : s.isExtracted deps w.volume w.cwd = true) :
    (ensureDir deps).run o w = (.ok (), w) := by
  obtain ⟨l, x, hs⟩ := leadsSomewhere_iff.1 seen
  obtain ⟨L, hL, -, -⟩ := stat_ok.1 hs
  obtain ⟨e, he, -⟩ := stat_div isName_marker hs
  obtain ⟨d, hd, -⟩ := he.of_div named.src
  by_cases empty : deps.bytes = []
  · exact run_ensureDir_top (.inl empty)
  · have usable := checkPath_of_div isName_marker (Path.bytes_div_ne_nil _ named.src) (reach_ok.1 hL).1
    exact run_ensureDir_there (checkPath_of_div named.src empty usable) hd (upright.opens hd here)

section Acquire

variable (named : s.Named) (usable : Usable cwd)
  (tame : ∀ b, s.Accepted o b → s.Tame deps cwd top (o.archive b))
  (again : ∀ w, Opens w.volume w.cwd deps top → w.volume.lookup top = some .dir →
    (ensureDir deps).run o w = (.ok (), w))
include again

theorem run_acquire_based (here : w.cwd = cwd) (based : Based deps cwd top w.volume) :
    (s.acquire deps).run o w = if s.isExtracted deps w.volume cwd then (.ok .cached, w)
      else (s.fill deps).run o w := by
  subst here
  split
  · rename_i seen
    exact run_acquire_cached seen
  · rename_i unseen
    exact run_acquire_made (by simpa using unseen) (again w based.opens based.there)

include named usable tame

theorem acquire_based (here : w.cwd = cwd) (based : Based deps cwd top w.volume) :
    Moved (Only (s.Own top)) w ((s.acquire deps).run o w).2 ∧
      Based deps cwd top ((s.acquire deps).run o w).2.volume := by
  rw [run_acquire_based again here based]
  split
  · exact ⟨.refl (Only.refl _) w, based⟩
  · exact fill_based named usable tame here based

/-- From volumes that agree on what the source owns, an acquisition comes to the same. -/
theorem acquire_both (uniform : ∀ b, s.Accepted o b → s.Uniform deps cwd top (o.archive b))
    (hw : w.cwd = cwd) (hu : u.cwd = cwd) (based : Based deps cwd top w.volume)
    (based' : Based deps cwd top u.volume) (unlinked : s.Unlinked top w.volume)
    (agree : AgreeOn (s.Own top) w.volume u.volume) :
    ((s.acquire deps).run o u).1 = ((s.acquire deps).run o w).1 ∧
      Redone (s.Own top) w.volume ((s.acquire deps).run o w).2.volume u.volume
        ((s.acquire deps).run o u).2.volume := by
  rw [run_acquire_based again hw based, run_acquire_based again hu based',
    isExtracted_congr named based.opens based'.opens unlinked agree]
  split
  · exact ⟨rfl, .shed (.refl _) (.refl _) agree⟩
  · exact fill_both named usable tame uniform ⟨hw, hu, based.fixed, based'.fixed, agree⟩ based based'

end Acquire

/-- What an acquisition needs for coming to the same whatever else is acquired before it. -/
structure Steady (s : Source) (deps : Path) (o : Outside) (cwd top : Location) (v : Volume) :
    Prop where
  named : s.Named
  unlinked : s.Unlinked top v
  tame : ∀ b, s.Accepted o b → s.Tame deps cwd top (o.archive b)
  uniform : ∀ b, s.Accepted o b → s.Uniform deps cwd top (o.archive b)

section Pair

variable {a b : Source} (apart : ∀ n ∈ a.names, n ∉ b.names)
include apart

/-- Once the directory is there, two acquisitions make a diamond. -/
theorem Based.commutes (based : Based deps cwd top w.volume) (here : w.cwd = cwd)
    (usable : Usable cwd) (again : ∀ w, Opens w.volume w.cwd deps top →
      w.volume.lookup top = some .dir → (ensureDir deps).run o w = (.ok (), w))
    (ha : a.Steady deps o cwd top w.volume) (hb : b.Steady deps o cwd top w.volume) :
    let afterA := (a.acquire deps).run o w
    let afterB := (b.acquire deps).run o w
    ((b.acquire deps).run o afterA.2).1 = afterB.1 ∧ ((a.acquire deps).run o afterB.2).1 = afterA.1 ∧
      Same ((b.acquire deps).run o afterA.2).2.volume ((a.acquire deps).run o afterB.2).2.volume := by
  intro afterA afterB
  have own : ∀ l, a.Own top l → ¬ b.Own top l := fun l => own_apart apart
  obtain ⟨first, basedA⟩ := acquire_based ha.named usable ha.tame again here based
  obtain ⟨first', basedB⟩ := acquire_based hb.named usable hb.tame again here based
  have hereA : afterA.2.cwd = cwd := first.cwd.trans here
  have hereB : afterB.2.cwd = cwd := first'.cwd.trans here
  obtain ⟨second, -⟩ := acquire_based hb.named usable hb.tame again hereA basedA
  obtain ⟨second', -⟩ := acquire_based ha.named usable ha.tame again hereB basedB
  obtain ⟨sameA, redoneA⟩ := acquire_both ha.named usable ha.tame again ha.uniform here hereB based
    basedB ha.unlinked fun l hl => first'.now l (own l hl)
  obtain ⟨sameB, redoneB⟩ := acquire_both hb.named usable hb.tame again hb.uniform here hereA based
    basedA hb.unlinked fun l hl => first.now l fun g => own l g hl
  have diamond : Diamond (a.Own top) (b.Own top) w.volume afterA.2.volume _ afterB.2.volume _ :=
    ⟨own, first.now, second.now, first'.now, second'.now, redoneA, redoneB⟩
  exact ⟨sameB, sameA, diamond.same⟩

end Pair

section Made

variable (upright : Upright w.volume) (down : deps.Descends)
  (linkless : Linkless (deps.place w.cwd) w.volume)
include upright down linkless

/-- Once the directory has been made, it is in its place, and only directories above it are new. -/
theorem ensureDir_based (start : w.volume.lookup (startOf w.cwd deps.bytes) = some .dir)
    (made : (ensureDir deps).run o w = (.ok (), w')) :
    w'.cwd = w.cwd ∧ Based deps w.cwd (deps.place w.cwd) w'.volume ∧
      Paved (deps.place w.cwd) w.volume w'.volume ∧
      ∀ u, Opens u.volume u.cwd deps (deps.place w.cwd) →
        u.volume.lookup (deps.place w.cwd) = some .dir → (ensureDir deps).run o u = (.ok (), u) := by
  have moved := moves_ensureDir_paved down o w rfl
  have straight := (upright_ensureDir_start deps o w rfl).now ⟨upright, start⟩
  rw [made] at moved straight
  have paved := moved.now (linkless.above (below_tail _))
  obtain ⟨l, opens, there, again⟩ := ensureDir_stands start made
  rw [moved.cwd] at opens
  obtain rfl := opens.place down (linkless.paved paved)
  refine ⟨moved.cwd, ⟨⟨straight.1, there⟩, opens.fixed down (linkless.paved paved), ?_⟩, paved, again o⟩
  exact below_append _ _

variable (here : w.volume.lookup w.cwd = some .dir)
include here

/-- What is acquired does not depend on whether the directory has been made before. -/
theorem acquire_made {s : Source} (named : s.Named) (unlinked : s.Unlinked (deps.place w.cwd) w.volume)
    (made : (ensureDir deps).run o w = (.ok (), w')) :
    (s.acquire deps).run o w = (s.acquire deps).run o w' := by
  by_cases seen : s.isExtracted deps w.volume w.cwd = true
  · rw [run_ensureDir_extracted named upright here seen] at made
    cases made
    rfl
  obtain ⟨cwd, based, paved, again⟩ :=
    ensureDir_based upright down linkless (lookup_startOf here _) made
  rw [run_acquire_made (by simpa using seen) made, run_acquire_based again cwd based,
    if_neg fun seen' => seen ?_]
  -- The sources can only be there if the directory was, and then nothing has been made.
  have inside : AgreeOn (s.Own (deps.place w.cwd)) w.volume w'.volume := fun l hl =>
    (paved l).resolve_right fun ⟨_, _, above⟩ => hl.inside.not_above above
  have src := inside _ (own_of_src (below_refl _))
  have unlinked' := unlinked.congr inside
  obtain ⟨-, -, dir, -⟩ := (isExtracted_at named based.opens unlinked').1 seen'
  rw [src] at dir
  have there : w.volume.lookup (deps.place w.cwd) = some .dir := upright _ _ (by
    rw [show w.volume.lookup (_ :: deps.place w.cwd) = _ from dir]
    rfl)
  have opens : Opens w.volume w.cwd deps (deps.place w.cwd) := by
    refine based.opens.keep fun l x hx _ => ?_
    rcases paved l with same | ⟨none, -, above⟩
    · rw [← same, hx]
    · rw [upright.above there above] at none
      cases none
  rwa [← isExtracted_congr named opens based.opens unlinked inside]

/-- Where the directory cannot be made, no acquisition comes further, and the next one stops there
again. -/
theorem acquire_unmade {e : IoError} (failed : (ensureDir deps).run o w = (.error e, w')) {s : Source}
    (named : s.Named) : (s.acquire deps).run o w = (.error (.io e), w') ∧
      (s.acquire deps).run o w' = (.error (.io e), w') := by
  have again := ensureDir_again upright here down linkless failed
  have straight := (upright_ensureDir deps o w rfl).now ⟨upright, here⟩
  have cwd := (moves_ensureDir_paved down o w rfl).cwd
  rw [failed] at straight cwd
  have unseen : ∀ {u u' : World}, Upright u.volume → u.volume.lookup u.cwd = some .dir →
      (ensureDir deps).run o u = (.error e, u') → s.isExtracted deps u.volume u.cwd = false := by
    intro u u' straight there failed
    refine Bool.eq_false_iff.2 fun seen => ?_
    rw [run_ensureDir_extracted named straight there seen] at failed
    cases failed
  exact ⟨run_acquire_unmade (unseen upright here failed) failed,
    run_acquire_unmade (unseen straight.1 (cwd.symm ▸ straight.2) again) again⟩

theorem acquire_commutes {a b : Source} (apart : ∀ n ∈ a.names, n ∉ b.names) (usable : Usable w.cwd)
    (ha : a.Steady deps o w.cwd (deps.place w.cwd) w.volume)
    (hb : b.Steady deps o w.cwd (deps.place w.cwd) w.volume) :
    let afterA := (a.acquire deps).run o w
    let afterB := (b.acquire deps).run o w
    ((b.acquire deps).run o afterA.2).1 = afterB.1 ∧ ((a.acquire deps).run o afterB.2).1 = afterA.1 ∧
      Same ((b.acquire deps).run o afterA.2).2.volume ((a.acquire deps).run o afterB.2).2.volume := by
  rcases made : (ensureDir deps).run o w with ⟨e | _, m⟩
  · obtain ⟨firstA, againA⟩ := acquire_unmade upright down linkless here made ha.named
    obtain ⟨firstB, againB⟩ := acquire_unmade upright down linkless here made hb.named
    simp only [firstA, firstB, againA, againB]
    exact ⟨trivial, trivial, fun _ _ => rfl, fun _ _ _ _ => .rfl⟩
  · obtain ⟨cwd, based, paved, again⟩ := ensureDir_based upright down linkless (lookup_startOf here _) made
    have kept : ∀ s : Source, s.Steady deps o w.cwd (deps.place w.cwd) w.volume →
        s.Steady deps o w.cwd (deps.place w.cwd) m.volume := fun s h =>
      { h with unlinked := h.unlinked.congr fun l hl =>
          (paved l).resolve_right fun ⟨_, _, above⟩ => hl.inside.not_above above }
    rw [acquire_made upright down linkless here ha.named ha.unlinked made,
      acquire_made upright down linkless here hb.named hb.unlinked made]
    exact based.commutes apart cwd usable again (kept a ha) (kept b hb)

end Made

/-- Acquiring a source leaves everything else alone: once the directory has been made, entries of the
source are removed, and then others come to their places or nothing is changed any more. So two
acquisitions with other names come to the same in either order, if the path to the directory leads
down without links and no link stands where the sources belong. -/
theorem acquisitions_alone (o : Outside) (w : World) (deps : Path) (upright : Upright w.volume)
    (here : w.volume.lookup w.cwd = some .dir) :
    (∀ s : Source, s.Named →
      Moved (MadeAlong w.cwd deps.ancestors) w (s.made deps o w) ∧
        ∀ top, Led (s.made deps o w).volume w.cwd deps top →
          (∀ b, s.Accepted o b → s.Tame deps w.cwd top (o.archive b)) →
            ∃ w₁, Moved (Sheds (s.Own top)) (s.made deps o w) w₁ ∧
              Moved (Only (s.Own top)) w₁ ((s.acquire deps).run o w).2 ∧
              (((s.acquire deps).run o w).2.volume = w₁.volume ∨ s.Absent top w₁.volume)) ∧
    (Usable w.cwd → deps.Descends → Linkless (deps.place w.cwd) w.volume →
      ∀ a b : Source, (∀ n ∈ a.names, n ∉ b.names) →
        a.Steady deps o w.cwd (deps.place w.cwd) w.volume →
        b.Steady deps o w.cwd (deps.place w.cwd) w.volume →
          let afterA := (a.acquire deps).run o w
          let afterB := (b.acquire deps).run o w
          ((b.acquire deps).run o afterA.2).1 = afterB.1 ∧
            ((a.acquire deps).run o afterB.2).1 = afterA.1 ∧
            Same ((b.acquire deps).run o afterA.2).2.volume
              ((a.acquire deps).run o afterB.2).2.volume) := by
  refine ⟨fun s named => ⟨madeAlong_made, fun top led tame => ?_⟩,
    fun usable down linkless a b apart ha hb => ?_⟩
  · exact acquire_footprint named (upright_made upright here) led tame
  · exact acquire_commutes upright down linkless here apart usable ha hb

section Sample

theorem opens_small (h : v.lookup [ofText "d"] = some .dir) :
    Opens v [] (Path.ofText "/d") [ofText "d"] := by
  refine ⟨0, by decide, ?_⟩
  rw [show (Path.ofText "/d").segments = [ofText "d"] by decide]
  exact .enter ⟨by decide, by decide, by decide⟩ h .done

theorem room_of_opens (opens : Opens v [] (Path.ofText "/d") [ofText "d"]) (free : Gone v smallRoot) :
    Room v := by
  obtain ⟨n, -, leads⟩ := opens
  have dir := (leads.entered (below_refl _)).resolve_left (by decide)
  exact ⟨fun u hu => opens_small ((hu _ fun h => h.2 rfl).trans dir), dir, free⟩

theorem smallArchive_tame : pinnedDemo.Tame (Path.ofText "/d") [] [ofText "d"] smallArchive := by
  intro o w cwd opens free _
  obtain ⟨w', run, grown, -⟩ := smallArchive_grows (o := o) cwd (room_of_opens (cwd ▸ opens) free)
  rw [run]
  exact grown

theorem smallArchive_uniform :
    pinnedDemo.Uniform (Path.ofText "/d") [] [ofText "d"] smallArchive := by
  intro o w u cwd cwd' based based' free _ free' _
  rw [run_smallArchive (room_of_opens based.opens free) rfl cwd,
    run_smallArchive (room_of_opens based'.opens free') rfl cwd']
  refine ⟨rfl, remade_unshared (fun l hl => ?_) fun l hl f hf => ?_⟩
  · simp only [World.set_volume, (lookup_smallSteps _ l).2.2, (lookup_smallSteps _ l).1]
    rw [free l hl, free' l hl]
  · simp only [World.set_volume, (lookup_smallSteps _ l).2.2, (lookup_smallSteps _ l).1] at hf
    rw [free l hl] at hf
    split at hf
    · cases hf
      rfl
    · split at hf <;> cases hf

/-- A source whose digest the server has nothing for. -/
def stale : Source := ⟨"other", "0.2.0", "http://host/other.tar.gz", some "none"⟩

/-- Left over are an archive of the one source and a link to it in the place of the other's. -/
def leftover : World := seenBy ⟨[([ofText "d"], .dir),
  ([ofText "other-0.2.0.tar.gz", ofText "d"], .file ⟨[8], plainMode, none⟩),
  ([ofText "demo-0.1.0.tar.gz", ofText "d"], .link (ofText "other-0.2.0.tar.gz"))]⟩

def withDemo : Except BuildError Acquired × World := (pinnedDemo.acquire "/d").run answering leftover

def withStale : Except BuildError Acquired × World := (stale.acquire "/d").run answering leftover

/-- One source is acquired and the other refused, in either order. -/
theorem acquisitions_alone_leftover :
    withDemo.1.isOk = true ∧ withStale.1.isOk = false ∧
      ((stale.acquire "/d").run answering withDemo.2).1 = withStale.1 ∧
      ((pinnedDemo.acquire "/d").run answering withStale.2).1 = withDemo.1 ∧
      Same ((stale.acquire "/d").run answering withDemo.2).2.volume
        ((pinnedDemo.acquire "/d").run answering withStale.2).2.volume ∧
      ∃ w₁, Moved (Sheds (pinnedDemo.Own [ofText "d"])) (pinnedDemo.made "/d" answering leftover) w₁ ∧
        Moved (Only (pinnedDemo.Own [ofText "d"])) w₁ withDemo.2 := by
  have upright : Upright leftover.volume := upright_of_entries (by decide +kernel)
  have usable : Usable leftover.cwd := fun s hs => by cases hs
  have steady : pinnedDemo.Steady "/d" answering [] [ofText "d"] leftover.volume := by
    refine ⟨⟨by decide, by decide⟩, ⟨fun t => ?_, fun t => ?_⟩, fun b _ => smallArchive_tame,
      fun b _ => smallArchive_uniform⟩
    · rw [show leftover.volume.lookup (pinnedDemo.srcAt [ofText "d"]) = none by decide +kernel]
      simp
    · rw [show leftover.volume.lookup (pinnedDemo.markerAt [ofText "d"]) = none by decide +kernel]
      simp
  have steady' : stale.Steady "/d" answering [] [ofText "d"] leftover.volume := by
    have refused : ∀ b, ¬ stale.Accepted answering b := by
      intro b accepted
      have digest := accepted "none" rfl
      unfold answering at digest
      simp only at digest
      split at digest <;> simp at digest
    refine ⟨⟨by decide, by decide⟩, ⟨fun t => ?_, fun t => ?_⟩, fun b g => absurd g (refused b),
      fun b g => absurd g (refused b)⟩
    · rw [show leftover.volume.lookup (stale.srcAt [ofText "d"]) = none by decide +kernel]
      simp
    · rw [show leftover.volume.lookup (stale.markerAt [ofText "d"]) = none by decide +kernel]
      simp
  have linkless : Linkless [ofText "d"] leftover.volume := by
    intro l t below
    rcases below_cons_iff.1 below with rfl | root
    · rw [show leftover.volume.lookup [ofText "d"] = some .dir by decide +kernel]
      simp
    · obtain rfl : l = [] := List.suffix_nil.1 root
      simp [lookup_root]
  have place : (Path.ofText "/d").place leftover.cwd = [ofText "d"] := by decide
  obtain ⟨alone, commute⟩ := acquisitions_alone answering leftover (Path.ofText "/d") upright rfl
  rw [place] at commute
  obtain ⟨sameB, sameA, same⟩ := commute usable (by decide) linkless pinnedDemo stale (by decide)
    steady steady'
  have led : Led (pinnedDemo.made (Path.ofText "/d") answering leftover).volume [] (Path.ofText "/d")
      [ofText "d"] := (opens_small (by decide +kernel)).led
  obtain ⟨w₁, sheds, only, -⟩ := (alone pinnedDemo steady.named).2 _ led fun _ _ => smallArchive_tame
  exact ⟨by decide +kernel, by decide +kernel, sameB, sameA, same, w₁, sheds, only⟩

/-- Where every body is what it is asked for, and each of two sources has an archive. -/
def serving (first : Archive) : Outside where
  exchange url := ⟨[], .ok ⟨200, "OK", some (if url = demo.url then [7] else [8])⟩⟩
  digest _ := ""
  archive b := if b = [7] then first else
    ⟨[⟨ofText "other-0.2.0/", .dir false, none⟩, ⟨ofText "other-0.2.0/g", .file ⟨[2], false⟩, none⟩], true⟩
  spawn _ _ v := .ok ⟨v, [], .success⟩

def other : Source := ⟨"other", "0.2.0", "http://host/other.tar.gz", none⟩

/-- The other source is there, but the path to the directory passes a name that is missing. -/
def detour : World := seenBy ⟨[([ofText "w"], .dir), ([ofText "deps", ofText "w"], .dir),
  ([ofText "other-0.2.0.src", ofText "deps", ofText "w"], .dir),
  ([ofText "EXTRACTED", ofText "other-0.2.0.src", ofText "deps", ofText "w"],
    .file ⟨ofText markerText, plainMode, none⟩)]⟩

/-- A file is put into the tree through a link that leads by the sources of the other. -/
def tangled : Archive := ⟨[smallDir,
  ⟨ofText "demo-0.1.0/link", .symlink (some (ofText "../other-0.2.0.src/../demo-0.1.0")), none⟩,
  ⟨ofText "demo-0.1.0/link/f", .file ⟨[1], false⟩, none⟩], true⟩

def emptyDeps : World := seenBy ⟨[([ofText "d"], .dir)]⟩

/-- The order matters where making the directory for the one source brings the other to light, and
where the one archive can only be unpacked beside the other sources. -/
theorem order_matters :
    (∀ n ∈ demo.names, n ∉ other.names) ∧
    detour.volume.linkFree = true ∧
    ((other.acquire "/w/a/../deps").run (serving smallArchive)
      ((demo.acquire "/w/a/../deps").run (serving smallArchive) detour).2).1.toOption = some .cached ∧
    ((other.acquire "/w/a/../deps").run (serving smallArchive) detour).1.toOption =
      some .downloaded ∧
    emptyDeps.volume.linkFree = true ∧
    ((demo.acquire "/d").run (serving tangled) emptyDeps).1.toOption = none ∧
    ((demo.acquire "/d").run (serving tangled)
      ((other.acquire "/d").run (serving tangled) emptyDeps).2).1.toOption = some .downloaded := by
  decide +kernel

end Sample

end Source
end PinnedDeps
