import PinnedDeps.Proofs.Archive.Occupied
import PinnedDeps.Proofs.Source.CrashSafety
import PinnedDeps.Proofs.Source.Straying

/-!
Acquisitions after failed ones. Whatever earlier acquisitions have left, the next one gets rid of it
and goes through, unless a file stands where a tree of the source belongs: that is never removed.
-/
namespace PinnedDeps

open Bytes (ofText)
open Volume PinnedDeps.Action

namespace Volume

variable {v u : Volume} {cwd l : Location} {p : Path}

/-- A file that is opened for writing stands in a directory. -/
theorem Upright.openFile {mode : Nat} {keep : Bool} (h : Upright v)
    (start : v.lookup (startOf cwd p.bytes) = some .dir)
    (g : v.openFile cwd p mode keep = .ok (l, u)) : Upright u ∧ Dirs v u := by
  obtain ⟨d, n, rfl, _, hL, ⟨hn, rfl⟩ | ⟨f, _, rfl⟩⟩ := openFile_ok g
  · have hd : v.lookup d = some .dir :=
      h.passage (reach_ok.1 hL).2 start
    have made : Worked [] v d n (v.put (n :: d) (.file ⟨[], mode, none⟩)) := .put _ hn
    exact ⟨h.worked made hd, made.dirs⟩
  · cases keep
    · exact ⟨h.adjust _ _, dirs_adjust v _ _⟩
    · exact ⟨h, fun _ hl => hl⟩

/-- Writing a file leaves every directory and every link where it is. -/
theorem keeps_openFile {mode : Nat} {keep : Bool} (g : v.openFile cwd p mode keep = .ok (l, u)) :
    Keeps v u := by
  obtain ⟨d, n, rfl, _, _, ⟨hn, rfl⟩ | ⟨f, _, rfl⟩⟩ := openFile_ok g
  · exact keeps_put _ hn
  · cases keep
    · exact keeps_adjust v _ _
    · exact Keeps.refl v

end Volume

namespace Site

variable {x : Site} {v u : Volume}

/-- The directory has been made, and what was there at the start still leads to it. -/
structure Standing (x : Site) (v : Volume) : Prop where
  keeps : Keeps x.start v
  dirs : ∀ l, Below x.top l → v.lookup l = some .dir

theorem Standing.way (h : x.Standing v) : Way v x.cwd x.deps x.base x.names := by
  obtain ⟨n, pre, hn, hp, hl⟩ := x.way.leads
  exact ⟨x.way.usable, ⟨n, pre, hn, hp, hl.keep h.keeps⟩, h.dirs _ (below_append _ _), x.way.steps,
    fun l hb _ => .inr (h.dirs l hb), x.way.ends⟩

theorem Standing.opens (h : x.Standing v) : Opens v x.cwd x.deps x.top :=
  (h.way.laid fun l hb _ => h.dirs l hb).opens

theorem Standing.within (h : x.Standing v) (g : Within x.top v u) : x.Standing u := by
  refine ⟨fun l e he hf => ?_, fun l hb => (g l fun hi => hi.not_above hb).trans (h.dirs l hb)⟩
  have outside : ¬ Inside l x.top := by
    intro hi
    rw [x.empty l hi] at he
    cases he
  rw [g l outside]
  exact h.keeps l e he hf

theorem Standing.fixed (h : x.Standing v) : Fixed v x.cwd x.deps x.top :=
  fun _ hu => (h.within hu).opens

theorem Standing.keep (h : x.Standing v) (g : Keeps v u) : x.Standing u :=
  ⟨h.keeps.trans g, fun l hb => g l _ (h.dirs l hb) (by simp)⟩

end Site

namespace Action

variable {ε ε' α β : Type} {P : World → Prop}

/-- A run ends in a state of the kind that it has started in. -/
def Stays (P : World → Prop) (a : Action ε α) : Prop := ∀ (o : Outside) w, P w → P (a.run o w).2

theorem Stays.run {a : Action ε α} {o : Outside} {w w' : World} {r : Except ε α} (h : Stays P a)
    (hw : P w) (run : a.run o w = (r, w')) : P w' := by
  have := h o w hw
  rwa [run] at this

theorem stays_mapError (f : ε → ε') {a : Action ε α} (h : Stays P a) : Stays P (a.mapError f) :=
  fun o w hw => h o w hw

/-- Where a run ends is where its first part has ended, or where the rest of it ends from there. -/
theorem ends_bind {a : Action ε α} {f : α → Action ε β} {o : Outside} {w : World}
    (first : P (a.run o w).2)
    (rest : ∀ y w₁, a.run o w = (.ok y, w₁) → P ((f y).run o w₁).2) : P ((a >>= f).run o w).2 := by
  rw [run_bind]
  rcases run : a.run o w with ⟨e | y, w₁⟩
  · rwa [run] at first
  · exact rest y w₁ run

theorem stays_bind {a : Action ε α} {f : α → Action ε β} (h : Stays P a) (g : ∀ x, Stays P (f x)) :
    Stays P (a >>= f) :=
  fun o w hw => ends_bind (h o w hw) fun y w₁ run => g y o w₁ (h.run hw run)

variable {o : Outside} {w : World} {p : Path} {n : String} {e : Location}

/-- Unless a file is at a name, whatever is there goes with all that is below it. -/
theorem run_removeTreeIfThere_clear (hn : IsName (ofText n)) (hc : checkPath (p / n) = .ok ())
    (hl : (ofText n).length ≤ nameLimit) (fixed : Fixed w.volume w.cwd p e)
    (upright : Upright w.volume) (free : ∀ f, w.volume.lookup (ofText n :: e) ≠ some (.file f)) :
    ∃ w', (removeTreeIfThere (p / n)).run o w = (.ok (), w') ∧ Gone w'.volume (ofText n :: e) ∧
      ∀ l, ¬ Below l (ofText n :: e) → w'.volume.lookup l = w.volume.lookup l := by
  have tree : TreeAt w.volume (ofText n :: e) → ∃ w',
      (removeTreeIfThere (p / n)).run o w = (.ok (), w') ∧ Gone w'.volume (ofText n :: e) ∧
        ∀ l, ¬ Below l (ofText n :: e) → w'.volume.lookup l = w.volume.lookup l := by
    intro h
    obtain ⟨w', run, moved, gone⟩ := run_removeTreeIfThere_name (o := o) hn hc hl fixed h
    exact ⟨w', run, gone, moved.now.outside⟩
  cases there : w.volume.lookup (ofText n :: e) with
  | none => exact tree (.inl (upright.gone there))
  | some y =>
    cases y with
    | dir => exact tree (.inr there)
    | file f => exact absurd there (free f)
    | link t =>
      -- A link is removed like a file, and nothing can be below it.
      have seen : w.volume.entryAt w.cwd (p / n) = .ok (ofText n :: e, .link t) := by
        rw [entryAt_eq hn hc hl fixed.opens]
        exact found_ok.2 ⟨rfl, there⟩
      refine ⟨w.set (w.volume.erase (ofText n :: e)), ?_, fun j hj => ?_, fun l hb => ?_⟩
      · unfold removeTreeIfThere
        rw [run_ifThere, run_removeTree_link seen, run_change, removeFile_eq hn hc hl fixed.opens,
          there]
      · rw [World.set_volume]
        by_cases hje : j = ofText n :: e
        · rw [hje, lookup_erase _ _ (by simp), if_pos rfl]
        · rw [lookup_erase_ne _ hje]
          refine upright.hollow (fun hd => ?_) j ⟨hj, hje⟩
          rw [there] at hd
          cases hd
      · refine lookup_erase_ne _ ?_
        rintro rfl
        exact hb (below_refl _)

/-- A file is never removed as a tree. -/
theorem run_removeTreeIfThere_file {f : File} (hn : IsName (ofText n))
    (hc : checkPath (p / n) = .ok ()) (hl : (ofText n).length ≤ nameLimit)
    (opens : Opens w.volume w.cwd p e) (there : w.volume.lookup (ofText n :: e) = some (.file f)) :
    (removeTreeIfThere (p / n)).run o w = (.error (.system .notDirectory), w) := by
  have seen : w.volume.entryAt w.cwd (p / n) = .ok (ofText n :: e, .file f) := by
    rw [entryAt_eq hn hc hl opens]
    exact found_ok.2 ⟨rfl, there⟩
  unfold removeTreeIfThere
  rw [run_ifThere, run_removeTree_file seen]
  rfl

end Action

namespace Source

variable {s : Source} {x : Site} {v u : Volume} {o : Outside} {w w' : World}

/-- The directory stands in its place, and the place of the archive can be cleared. -/
structure InOrder (s : Source) (x : Site) (v : Volume) : Prop extends x.Standing v where
  upright : Upright v
  archive : v.lookup (s.archiveAt x.top) ≠ some .dir

theorem InOrder.led (h : s.InOrder x v) : Led v x.cwd x.deps x.top := h.opens.led

theorem InOrder.thin (h : s.InOrder x v) (within : Within x.top v u) (g : Thins v u)
    (upright : Upright u) : s.InOrder x u :=
  ⟨h.toStanding.within within, upright, fun hd => h.archive (g _ _ hd)⟩

/-- The state of a run at its place, with everything in order. -/
structure Orderly (s : Source) (x : Site) (w : World) : Prop where
  cwd : w.cwd = x.cwd
  order : s.InOrder x w.volume

theorem Orderly.fixed (h : s.Orderly x w) : Fixed w.volume w.cwd x.deps x.top :=
  h.cwd ▸ h.order.toStanding.fixed

/-- A file stands where a tree of the source belongs. -/
def Blocked (s : Source) (top : Location) (v : Volume) : Prop :=
  ∃ f, v.lookup (s.srcAt top) = some (.file f) ∨ v.lookup (s.unpackedAt top) = some (.file f)

theorem Blocked.congr {top : Location} (h : s.Blocked top v)
    (same : ∀ l, Inside l top → u.lookup l = v.lookup l) : s.Blocked top u := by
  obtain ⟨f, hf⟩ := h
  refine ⟨f, ?_⟩
  rwa [same _ (inside_of_src (below_refl _)), same (s.unpackedAt top) (inside_cons _ _)]

/-- Wherever nothing of the source stands, the archive gives a tree of directories and files below the
stem, without a marker, and nothing else. -/
def GivesTree (s : Source) (x : Site) (a : Archive) : Prop :=
  ∀ (o : Outside) w, w.cwd = x.cwd → Upright w.volume → Fixed w.volume w.cwd x.deps x.top →
    Gone w.volume (s.unpackedAt x.top) → Gone w.volume (s.srcAt x.top) →
      ∃ w', (Unpack.unpack a x.deps).run o w = (.ok (), w') ∧
        Grows (s.unpackedAt x.top) w.volume w'.volume ∧
        w'.volume.lookup (s.unpackedAt x.top) = some .dir

/-- The answer is a body that is accepted and holds a tree of the source. -/
def Supplies (s : Source) (x : Site) (o : Outside) : Prop :=
  ∃ b, fetched s.url (o.exchange s.url).answer = .ok b ∧ s.Accepted o b ∧ s.GivesTree x (o.archive b)

/-- The volumes that acquisitions have come to, whatever was answered to them. -/
inductive Attempted (s : Source) (x : Site) : Volume → Prop
  | start : Attempted s x x.start
  | next {o : Outside} {w : World} (before : Attempted s x w.volume) (cwd : w.cwd = x.cwd) :
      Attempted s x ((s.acquire x.deps).run o w).2.volume

/-- What earlier acquisitions leave: the directory untouched, or everything in order. -/
def Ready (s : Source) (x : Site) (v : Volume) : Prop := v = x.start ∨ s.InOrder x v

theorem stays_removeTree {n : String} (hn : IsName (ofText n)) :
    Stays (s.Orderly x) (removeTreeIfThere (x.deps / n)) := by
  rintro o w ⟨hw, h⟩
  have trimmed : Moved (Trims (Inside · x.top) x.cwd x.deps x.top) w _ :=
    trims_removeTreeIfThere hn (fun _ => Below.inside) o w hw
  obtain ⟨within, thins⟩ := trimmed.now h.led
  have removed : TreeRemoved (x.deps / n) w ((removeTreeIfThere (x.deps / n)).run o w).1
      ((removeTreeIfThere (x.deps / n)).run o w).2 := treeRemoved (Path.endsInName_div _ hn) rfl
  exact ⟨trimmed.cwd.trans hw, h.thin within thins (removed.upright h.upright)⟩

section Steps

variable (named : s.Named)
include named

theorem stays_removeArchive : Stays (s.Orderly x) (removeFileIfThere (s.archivePath x.deps)) := by
  rintro o w ⟨hw, h⟩
  have trimmed : Moved (Trims (s.Own x.top) x.cwd x.deps x.top) w _ :=
    trims_removeFileIfThere named.archive (own_archive s x.top) o w hw
  obtain ⟨only, thins⟩ := trimmed.now h.led
  have upright := (upright_removeFileIfThere (s.archivePath x.deps) o w rfl).now h.upright
  exact ⟨trimmed.cwd.trans hw, h.thin (only.within fun _ => Own.inside) thins upright⟩

theorem stays_clearRemnants : Stays (s.Orderly x) (s.clearRemnants x.deps) :=
  stays_mapError _ <| stays_bind (stays_removeArchive named) fun _ =>
    stays_bind (stays_removeTree named.src) fun _ => stays_removeTree named.stem

/-- The moving of the tree leaves everything in order, whatever the archive has made of it. -/
theorem InOrder.rename (h : s.InOrder x v)
    (g : v.rename x.cwd (s.unpackedDir x.deps) (s.srcDir x.deps) = .ok u) : s.InOrder x u := by
  obtain ⟨only, hx⟩ := rename_within named h.led g
  refine ⟨h.toStanding.within (only.within fun _ => Own.inside),
    rename_upright named h.led h.upright (h.dirs _ (below_refl _)) g, ?_⟩
  rcases hx with rfl | rfl
  · exact h.archive
  · have same : (v.relocate (s.unpackedAt x.top) (s.srcAt x.top)).lookup (s.archiveAt x.top) =
        v.lookup (s.archiveAt x.top) :=
      lookup_relocate_of_not_below archiveAt_not_unpacked archiveAt_not_src
    exact fun hd => h.archive (same.symm.trans hd)

theorem stays_rename : Stays (s.Orderly x)
    (change fun v cwd => v.rename cwd (s.unpackedDir x.deps) (s.srcDir x.deps)) := by
  rintro o w ⟨hw, h⟩
  rw [run_change]
  cases renamed : w.volume.rename w.cwd (s.unpackedDir x.deps) (s.srcDir x.deps) with
  | error e => exact ⟨hw, h⟩
  | ok u => exact ⟨hw, h.rename named (hw ▸ renamed)⟩

/-- An archive that is there is unpacked inside the directory, and not to a directory in its own
place. -/
theorem Orderly.extracts {f : File} (h : s.Orderly x w) (usable : Usable x.cwd)
    (stored : s.Stored x.deps w.cwd x.top f w.volume) :
    s.Orderly x ((extract (s.archivePath x.deps) x.deps).run o w).2 := by
  have ground : Ground x.top w.volume := ⟨h.order.upright, h.order.dirs _ (below_refl _)⟩
  have built : Moved _ w ((extract (s.archivePath x.deps) x.deps).run o w).2 :=
    extract_builds ground (stored.opens.usable (h.cwd ▸ usable)) stored.opens
  have guarded := Unpack.guards_unpack (o.archive f.bytes) x.deps o w h.cwd
    ⟨.file f, stored.archive, by simp⟩
  refine ⟨built.cwd.trans h.cwd, h.order.toStanding.within built.now.1, built.now.2.upright, ?_⟩
  rw [run_extract_stored named stored]
  exact guarded.spared

end Steps

section Runs

variable (here : x.start.lookup x.cwd = some .dir)
include here

theorem InOrder.cwd_dir (h : s.InOrder x v) : v.lookup x.cwd = some .dir :=
  h.keeps _ _ here (by simp)

/-- A file may be written anywhere. -/
theorem stays_writeFile (p : Path) (b : Bytes) : Stays (s.Orderly x) (writeFile p b) := by
  rintro o w ⟨hw, h⟩
  rw [run_writeFile]
  cases opened : w.volume.openFile w.cwd p plainMode false with
  | error e => exact ⟨hw, h⟩
  | ok y =>
    obtain ⟨l, u⟩ := y
    have upright := (h.upright.openFile (lookup_startOf (hw ▸ h.cwd_dir here) _) opened).1
    have first : s.InOrder x u := ⟨h.toStanding.keep (keeps_openFile opened), upright,
      fun hd => h.archive (openFile_opensNothing opened _ _ hd (by simp))⟩
    refine ⟨hw, first.toStanding.keep (keeps_adjust u _ _), upright.adjust _ _, fun hd => ?_⟩
    exact first.archive (keeps_of_adjust _ _ _ _ hd (by simp))

theorem stays_download (dest : Path) (sha256 : Option String) :
    Stays (s.Orderly x) (download s.url dest sha256) := by
  refine stays_bind (fun o w h => ?_) fun body => stays_bind (fun o w h => ?_) fun _ =>
    stays_mapError _ (stays_writeFile here dest body)
  · rw [run_fetch]
    exact ⟨h.cwd, h.order⟩
  · rw [run_verify]
    exact h

/-- The directory is made, and what was inside it stays. -/
theorem Ready.ensureDir (h : s.Ready x w.volume) (hw : w.cwd = x.cwd) (upright : Upright x.start) :
    ∃ w₁, (io (Action.ensureDir x.deps)).run o w = (.ok (), w₁) ∧ s.Orderly x w₁ ∧
      ∀ l, Inside l x.top → w₁.volume.lookup l = w.volume.lookup l := by
  have before : Keeps x.start w.volume ∧ Upright w.volume ∧
      w.volume.lookup (s.archiveAt x.top) ≠ some .dir ∧
      Way w.volume w.cwd x.deps x.base x.names := by
    rw [hw]
    rcases h with h | h
    · rw [h]
      exact ⟨.refl _, upright, by simp [x.empty _ (inside_archiveAt s x.top)], x.way⟩
    · exact ⟨h.keeps, h.upright, h.archive, h.way⟩
  obtain ⟨keeps, upright, archive, way⟩ := before
  obtain ⟨w₁, run, paved, laid⟩ := run_ensureDir (o := o) way
  have straight := (upright_ensureDir x.deps o w rfl).now ⟨upright, hw ▸ keeps _ _ here (by simp)⟩
  rw [run] at straight
  have same : ∀ l, Inside l x.top → w₁.volume.lookup l = w.volume.lookup l := by
    intro l hl
    rcases paved.now l with e | ⟨_, _, hb⟩
    · exact e
    · exact absurd hb hl.not_above
  refine ⟨w₁, run_mapError_ok.2 run,
    ⟨paved.cwd.trans hw, ⟨keeps.trans paved.now.keeps, fun l hb => ?_⟩, straight.1, ?_⟩, same⟩
  · exact straight.1.above laid.there hb
  · rw [same _ (inside_archiveAt s x.top)]
    exact archive

section Named

variable (named : s.Named)
include named

theorem stays_settle : Stays (s.Orderly x) (s.settle x.deps (s.archivePath x.deps)) :=
  stays_bind (stays_rename named) fun _ => stays_bind (stays_removeArchive named) fun _ =>
    stays_writeFile here _ _

/-- Once the archive is there, whatever it holds leaves everything in order. -/
theorem Orderly.unpacks {f : File} (h : s.Orderly x w) (usable : Usable x.cwd)
    (stored : s.Stored x.deps w.cwd x.top f w.volume) :
    s.Orderly x ((s.unpack x.deps (s.archivePath x.deps)).run o w).2 := by
  have extracted := h.extracts (o := o) named usable stored
  refine ends_bind extracted fun _ w₁ run => ?_
  rw [run] at extracted
  exact stays_mapError _ (stays_settle here named) o w₁ extracted

theorem Orderly.fills (h : s.Orderly x w) (usable : Usable x.cwd) :
    s.Orderly x ((s.fill x.deps).run o w).2 := by
  refine ends_bind (stays_clearRemnants named o w h) fun _ w₁ cleared => ?_
  have first := (stays_clearRemnants named).run h cleared
  have empty := clearRemnants_clears named h.order.upright cleared
  refine ends_bind (stays_download here _ _ o w₁ first) fun _ w₂ loaded => ?_
  have second := (stays_download here _ _).run first loaded
  obtain ⟨f, -, -, -, stored, -⟩ :=
    (run_download_cleared (o := o) named (first.cwd ▸ first.order.led) empty).2 w₂ loaded
  have unpacked := second.unpacks (o := o) here named usable stored
  refine ends_bind unpacked fun _ w₃ run => ?_
  rwa [run] at unpacked

end Named

end Runs

section Clearing

variable (plain : s.Plain x.deps) (h : s.Orderly x w)
include plain h

theorem Orderly.clearArchive : ∃ w', (removeFileIfThere (s.archivePath x.deps)).run o w = (.ok (), w') ∧
    s.Orderly x w' ∧
      ∀ l, w'.volume.lookup l = if l = s.archiveAt x.top then none else w.volume.lookup l := by
  obtain ⟨w', run, _, look⟩ := run_clearArchive (o := o) plain.storable h.fixed.opens h.order.archive
  exact ⟨w', run, (stays_removeArchive plain.toNamed).run h run, look⟩

theorem Orderly.clearSrc (free : ∀ f, w.volume.lookup (s.srcAt x.top) ≠ some (.file f)) :
    ∃ w', (removeTreeIfThere (s.srcDir x.deps)).run o w = (.ok (), w') ∧ s.Orderly x w' ∧
      Gone w'.volume (s.srcAt x.top) ∧
      ∀ l, ¬ Below l (s.srcAt x.top) → w'.volume.lookup l = w.volume.lookup l := by
  have fits := plain.storable.fits ".src" (by decide) (by decide) (by decide)
  obtain ⟨w', run, gone, rest⟩ := run_removeTreeIfThere_clear (o := o) plain.src fits.1 fits.2
    h.fixed h.order.upright free
  exact ⟨w', run, (stays_removeTree plain.src).run h run, gone, rest⟩

/-- Where no file is in the way, nothing of the source is left by the clearing. -/
theorem Orderly.cleared (free : ¬ s.Blocked x.top w.volume) :
    ∃ w', (s.clearRemnants x.deps).run o w = (.ok (), w') ∧ s.Orderly x w' ∧
      w'.volume.lookup (s.archiveAt x.top) = none ∧ Gone w'.volume (s.srcAt x.top) ∧
      Gone w'.volume (s.unpackedAt x.top) := by
  obtain ⟨w₁, run₁, h₁, look⟩ := h.clearArchive (o := o) plain
  have same₁ : ∀ l, l ≠ s.archiveAt x.top → w₁.volume.lookup l = w.volume.lookup l :=
    fun l hl => (look l).trans (if_neg hl)
  have free₁ : ∀ f, w₁.volume.lookup (s.srcAt x.top) ≠ some (.file f) := by
    rw [same₁ _ (ne_archiveAt_of_src (below_refl _))]
    exact fun f hf => free ⟨f, .inl hf⟩
  obtain ⟨w₂, run₂, h₂, gone₂, rest₂⟩ := h₁.clearSrc (o := o) plain free₁
  have free₂ : ∀ f, w₂.volume.lookup (s.unpackedAt x.top) ≠ some (.file f) := by
    rw [rest₂ _ (not_src_of_unpacked (below_refl _)), same₁ _ (ne_archiveAt_of_unpacked (below_refl _))]
    exact fun f hf => free ⟨f, .inr hf⟩
  obtain ⟨w₃, run₃, gone₃, rest₃⟩ := run_removeTreeIfThere_clear (o := o) plain.stem
    plain.storable.fits_stem.1 plain.storable.fits_stem.2 h₂.fixed h₂.order.upright free₂
  refine ⟨w₃, run_mapError_ok.2 ?_, (stays_removeTree plain.stem).run h₂ run₃, ?_, ?_, gone₃⟩
  · rw [run_bind_of_ok run₁, run_bind_of_ok run₂]
    exact run₃
  · rw [rest₃ _ archiveAt_not_unpacked, rest₂ _ archiveAt_not_src, look, if_pos rfl]
  · exact gone₂.congr fun j hj => rest₃ j (not_unpacked_of_src hj)

/-- A file in the place of a tree stops the clearing, and stays. -/
theorem Orderly.blocked (blocked : s.Blocked x.top w.volume) :
    ∃ e w', (s.clearRemnants x.deps).run o w = (.error e, w') ∧ s.Orderly x w' ∧
      s.isExtracted x.deps w'.volume w'.cwd = false ∧ s.Blocked x.top w'.volume := by
  obtain ⟨w₁, run₁, h₁, look⟩ := h.clearArchive (o := o) plain
  have fits := plain.storable.fits ".src" (by decide) (by decide) (by decide)
  have hidden : ∀ {w₂ w₃ : World} {r}, (removeTreeIfThere (s.srcDir x.deps)).run o w₂ = (r, w₃) →
      s.isExtracted x.deps w₃.volume w₃.cwd = false := fun run =>
    (removeTree_hides (srcDir_endsInName s x.deps) run).2 _ isName_marker
  by_cases src : ∃ f, w₁.volume.lookup (s.srcAt x.top) = some (.file f)
  · obtain ⟨f, there⟩ := src
    have run₂ := run_removeTreeIfThere_file (o := o) plain.src fits.1 fits.2 h₁.fixed.opens there
    have run : (s.clearRemnants x.deps).run o w = (.error (.io (.system .notDirectory)), w₁) :=
      run_mapError_error.2 ⟨_, rfl, (run_bind_of_ok run₁).trans (run_bind_of_error run₂)⟩
    exact ⟨_, w₁, run, h₁, hidden run₂, f, .inl there⟩
  · obtain ⟨w₂, run₂, h₂, _, rest₂⟩ := h₁.clearSrc (o := o) plain fun f hf => src ⟨f, hf⟩
    obtain ⟨f, hf⟩ := blocked
    have there : w₂.volume.lookup (s.unpackedAt x.top) = some (.file f) := by
      rw [rest₂ _ (not_src_of_unpacked (below_refl _)), look,
        if_neg (ne_archiveAt_of_unpacked (below_refl _))]
      refine hf.resolve_left fun hf => src ⟨f, ?_⟩
      rw [look, if_neg (ne_archiveAt_of_src (below_refl _)), hf]
    have run₃ := run_removeTreeIfThere_file (o := o) plain.stem plain.storable.fits_stem.1 plain.storable.fits_stem.2
      h₂.fixed.opens there
    have run : (s.clearRemnants x.deps).run o w = (.error (.io (.system .notDirectory)), w₂) := by
      refine run_mapError_error.2 ⟨_, rfl, ?_⟩
      rw [run_bind_of_ok run₁, run_bind_of_ok run₂]
      exact run₃
    exact ⟨_, w₂, run, h₂, hidden run₂, f, .inr there⟩

/-- In a directory without remnants, an archive with a tree is downloaded and unpacked. -/
theorem Orderly.goesThrough (here : x.start.lookup x.cwd = some .dir)
    (free : w.volume.lookup (s.archiveAt x.top) = none)
    (src : Gone w.volume (s.srcAt x.top)) (unpacked : Gone w.volume (s.unpackedAt x.top))
    (supplies : s.Supplies x o) : ∃ w', (do
      download s.url (s.archivePath x.deps) s.sha256
      s.unpack x.deps (s.archivePath x.deps)
      return Acquired.downloaded : Action BuildError Acquired).run o w = (.ok .downloaded, w') := by
  obtain ⟨b, answered, accepted, gives⟩ := supplies
  let after : World := { w with trace := .requested (o.exchange s.url).requests :: w.trace }
  have verified : (verify s.url b s.sha256).run o after = (.ok (), after) := by
    rw [run_verify]
    cases pinned : s.sha256 with
    | none => rfl
    | some sha => simp only [if_pos (accepted sha pinned)]
  obtain ⟨w₁, written, filed, look⟩ := run_writeFile_new (o := o) (w := after) (b := b) plain.archive
    plain.archive_usable plain.short h.fixed.opens free
  have loaded : (download s.url (s.archivePath x.deps) s.sha256).run o w = (.ok (), w₁) := by
    unfold download
    rw [run_bind, run_fetch, answered]
    exact (run_bind_of_ok verified).trans (run_mapError_ok.2 written)
  have stored : w₁.volume.lookup (s.archiveAt x.top) = some (.file ⟨b, plainMode, none⟩) :=
    (look _).trans (if_pos rfl)
  have h₁ : s.Orderly x w₁ := (stays_download here _ _).run h loaded
  have src₁ : Gone w₁.volume (s.srcAt x.top) :=
    src.congr fun j hj => (look j).trans (if_neg (ne_archiveAt_of_src hj))
  have unpacked₁ : Gone w₁.volume (s.unpackedAt x.top) :=
    unpacked.congr fun j hj => (look j).trans (if_neg (ne_archiveAt_of_unpacked hj))
  obtain ⟨w₂, grown, grows, dir⟩ := gives o w₁ h₁.cwd h₁.order.upright h₁.fixed unpacked₁ src₁
  have seen : w₁.volume.stat w₁.cwd (s.archivePath x.deps) =
      .ok (s.archiveAt x.top, .file ⟨b, plainMode, none⟩) :=
    stat_eq plain.archive plain.archive_usable plain.short h₁.fixed.opens stored (by simp)
  have extracted : (extract (s.archivePath x.deps) x.deps).run o w₁ = (.ok (), w₂) := by
    unfold extract
    rw [run_bind, run_mapError, run_ask, seen]
    exact run_mapError_ok.2 grown
  have guarded := Unpack.guards_unpack (o.archive b) x.deps o w₁ rfl ⟨_, stored, by simp⟩
  rw [grown] at guarded
  have fixed₂ : Fixed w₂.volume w₂.cwd x.deps x.top :=
    guarded.cwd ▸ h₁.fixed.within fun l hl => grows.outside l fun b => hl b.inside
  have spared : w₂.volume.lookup (s.archiveAt x.top) ≠ some .dir := by
    rw [grows.outside _ archiveAt_not_unpacked]
    exact h₁.order.archive
  obtain ⟨_, w₃, settled, _⟩ := run_settle (o := o) plain fixed₂ spared dir
    (src₁.congr fun j hj => grows.outside j (not_unpacked_of_src hj)) grows.marker
  refine ⟨w₃, ?_⟩
  rw [run_bind_of_ok loaded]
  have finished : (s.unpack x.deps (s.archivePath x.deps)).run o w₁ = (.ok (), w₃) :=
    (run_bind_of_ok extracted).trans (run_mapError_ok.2 settled)
  rw [run_bind_of_ok finished]
  rfl

end Clearing

section Acquire

variable (plain : s.Plain x.deps) (upright : Upright x.start) (here : x.start.lookup x.cwd = some .dir)
  (usable : Usable x.cwd)
include upright here

/-- What an acquisition of a source that does not count as extracted does after making the
directory. -/
theorem Ready.acquires (h : s.Ready x w.volume) (hw : w.cwd = x.cwd)
    (seen : s.isExtracted x.deps w.volume w.cwd = false) :
    ∃ w₁, s.Orderly x w₁ ∧ (∀ l, Inside l x.top → w₁.volume.lookup l = w.volume.lookup l) ∧
      (s.acquire x.deps).run o w = (s.fill x.deps).run o w₁ := by
  obtain ⟨w₁, made, orderly, same⟩ := h.ensureDir (o := o) here hw upright
  exact ⟨w₁, orderly, same, run_acquire_made seen (run_mapError_ok.1 made)⟩

include plain usable

theorem Attempted.ready (h : s.Attempted x v) : s.Ready x v := by
  induction h with
  | start => exact .inl rfl
  | @next o w _ hw ih =>
    by_cases seen : s.isExtracted x.deps w.volume w.cwd = true
    · rw [run_acquire_cached seen]
      exact ih
    · obtain ⟨w₁, orderly, -, run⟩ := ih.acquires (o := o) upright here hw
        (by simpa using seen)
      rw [run]
      exact .inr (orderly.fills here plain.toNamed usable).order

/-- Where a file stands in the place of a tree, every further acquisition fails and leaves it. -/
theorem Attempted.stuck (h : s.Attempted x w.volume) (hw : w.cwd = x.cwd)
    (unseen : s.isExtracted x.deps w.volume x.cwd = false) (blocked : s.Blocked x.top w.volume) :
    ∃ e w', (s.acquire x.deps).run o w = (.error e, w') ∧
      s.isExtracted x.deps w'.volume x.cwd = false ∧ s.Blocked x.top w'.volume := by
  have ready := h.ready plain upright here usable
  obtain ⟨w₁, orderly, same, run⟩ := ready.acquires (o := o) upright here hw (hw ▸ unseen)
  obtain ⟨e, w₂, stopped, h₂, hidden, still⟩ := orderly.blocked (o := o) plain (blocked.congr same)
  exact ⟨e, w₂, run.trans (run_bind_of_error stopped), h₂.cwd ▸ hidden, still⟩

/-- Where none does, an acquisition that is answered with a tree goes through. -/
theorem Attempted.goesThrough (h : s.Attempted x w.volume) (hw : w.cwd = x.cwd)
    (unseen : s.isExtracted x.deps w.volume w.cwd = false) (free : ¬ s.Blocked x.top w.volume)
    (supplies : s.Supplies x o) : ∃ w', (s.acquire x.deps).run o w = (.ok .downloaded, w') := by
  have ready := h.ready plain upright here usable
  obtain ⟨w₁, orderly, same, run⟩ := ready.acquires (o := o) upright here hw unseen
  have free₁ : ¬ s.Blocked x.top w₁.volume := fun g => free (g.congr fun l hl => (same l hl).symm)
  obtain ⟨w₂, cleared, h₂, archive, src, unpacked⟩ := orderly.cleared (o := o) plain free₁
  obtain ⟨w₃, through⟩ := h₂.goesThrough plain here archive src unpacked supplies
  exact ⟨w₃, run.trans ((run_bind_of_ok cleared).trans through)⟩

/-- A further acquisition that is answered with a tree goes through if and only if the source counts
as extracted or no file stands where a tree of it belongs. Where one does, every further acquisition
fails, whatever is answered, and leaves the file. -/
theorem acquire_ok_iff (h : s.Attempted x v) :
    (∀ (o : Outside) w, w.volume = v → w.cwd = x.cwd → s.Supplies x o →
      ((∃ a w', (s.acquire x.deps).run o w = (.ok a, w')) ↔
        s.isExtracted x.deps v x.cwd = true ∨ ¬ s.Blocked x.top v)) ∧
    (s.isExtracted x.deps v x.cwd = false → s.Blocked x.top v → ∀ (o : Outside) w, w.volume = v → w.cwd = x.cwd →
      ∃ e w', (s.acquire x.deps).run o w = (.error e, w') ∧
        s.isExtracted x.deps w'.volume x.cwd = false ∧ s.Blocked x.top w'.volume) := by
  constructor
  · rintro o w rfl hw supplies
    rw [← hw]
    by_cases seen : s.isExtracted x.deps w.volume w.cwd = true
    · exact ⟨fun _ => .inl seen, fun _ => ⟨.cached, w, run_acquire_cached seen⟩⟩
    have unseen : s.isExtracted x.deps w.volume w.cwd = false := by simpa using seen
    constructor
    · rintro ⟨a, w', run⟩
      refine .inr fun blocked => ?_
      obtain ⟨e, w₁, failed, _⟩ := h.stuck (o := o) plain upright here usable hw (hw ▸ unseen) blocked
      rw [failed] at run
      cases run
    · intro h₁
      obtain ⟨w', run⟩ := h.goesThrough plain upright here usable hw unseen (h₁.resolve_left seen)
        supplies
      exact ⟨.downloaded, w', run⟩
  · rintro unseen blocked o w rfl hw
    exact h.stuck plain upright here usable hw unseen blocked

end Acquire

section Misnamed

/-- An archive that holds a file in the place of the tree, and a server that answers with it. -/
def misnamed : Archive := ⟨[⟨ofText "demo-0.1.0", .file ⟨[1], false⟩, none⟩], true⟩

def misleading : Outside where
  exchange _ := ⟨[], .ok ⟨200, "OK", some []⟩⟩
  digest _ := ""
  archive _ := misnamed
  spawn _ _ v := .ok ⟨v, [], .success⟩

/-- Answered with a tree, the first acquisition goes through; after a failed one it does not. -/
theorem misnamed_acquire_wedges :
    ((demo.acquire "/deps").run answering emptyWorld).1.isOk = true ∧
      let after := ((demo.acquire "/deps").run misleading emptyWorld).2
      ((demo.acquire "/deps").run answering after).1.isOk = false := by
  decide +kernel

theorem demo_plain : demo.Plain emptySite.deps :=
  ⟨⟨by decide, by decide⟩, by decide, checkPath_ok.2 (by decide)⟩

theorem upright_empty : Upright .empty := by
  intro n d h
  cases h

/-- The small archive gives its tree to the directory below the root. -/
theorem smallArchive_gives : demo.GivesTree emptySite smallArchive := by
  intro o w hw upright fixed free _
  have fixed : Fixed w.volume [] (Path.ofText "/d") [ofText "d"] := by rwa [hw] at fixed
  obtain ⟨w', run, grown, dir, _⟩ := smallArchive_grows hw ⟨fixed, upright.opens fixed.opens rfl, free⟩
  exact ⟨w', run, grown.now, dir⟩

/-- The archive in the small directory below the root: its file is in the way of every acquisition. -/
theorem acquire_ok_iff_misnamed :
    demo.Supplies emptySite answering ∧
      (∃ a w', (demo.acquire "/d").run answering (seenBy .empty) = (.ok a, w')) ∧
      let after := ((demo.acquire "/d").run misleading (seenBy .empty)).2
      Attempted demo emptySite after.volume ∧
        ∀ (o : Outside) w, w.volume = after.volume → w.cwd = [] →
          ∃ e w', (demo.acquire "/d").run o w = (.error e, w') := by
  have supplies : demo.Supplies emptySite answering := by
    refine ⟨[7], rfl, fun sha h => ?_, smallArchive_gives⟩
    cases h
  have usable : Usable emptySite.cwd := fun s hs => by cases hs
  have first := acquire_ok_iff demo_plain upright_empty rfl usable .start
  refine ⟨supplies, (first.1 answering (seenBy .empty) rfl rfl supplies).2 (.inr ?_), ?_⟩
  · rintro ⟨f, hf | hf⟩ <;> cases hf
  intro after
  have attempted : Attempted demo emptySite after.volume := .next (w := seenBy .empty) .start rfl
  have unseen : demo.isExtracted "/d" after.volume [] = false := by decide +kernel
  have stands : after.volume.lookup (demo.srcAt emptySite.top) =
      some (.file ⟨[1], plainMode, none⟩) := by
    decide +kernel
  have blocked : demo.Blocked emptySite.top after.volume := ⟨_, .inl stands⟩
  refine ⟨attempted, fun o w hv hw => ?_⟩
  have second := acquire_ok_iff demo_plain upright_empty rfl usable attempted
  obtain ⟨e, w', failed, _⟩ := second.2 unseen blocked o w hv hw
  exact ⟨e, w', failed⟩

end Misnamed

end Source
end PinnedDeps
