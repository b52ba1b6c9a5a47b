import PinnedDeps.Proofs.Action.Making
import PinnedDeps.Proofs.Action.Parents
import PinnedDeps.Proofs.Action.Straight
import PinnedDeps.Proofs.Source.Verified

/-!
Acquisitions and what lies outside the directory of dependencies. While the path to the directory
leads to one place only, nothing outside is changed, but that the directory is made.
-/
namespace PinnedDeps

open Bytes (ofText slash)
open Volume PinnedDeps.Action

namespace Volume

variable {v u : Volume} {cwd e top : Location} {p : Path} {n : String}

/-- Outside a directory the second volume has some more directories; all else there is the same. -/
def Later (top : Location) (v u : Volume) : Prop :=
  ∀ l, ¬ Inside l top → u.lookup l = v.lookup l ∨ v.lookup l = none ∧ u.lookup l = some .dir

theorem Later.refl (top : Location) (v : Volume) : Later top v v := fun _ _ => .inl rfl

theorem Later.trans (v u w : Volume) (h : Later top v u) (g : Later top u w) : Later top v w := by
  intro l hl
  rcases g l hl with g | ⟨gn, gd⟩
  · rw [g]
    exact h l hl
  · rcases h l hl with h | ⟨_, hd⟩
    · exact .inr ⟨h ▸ gn, gd⟩
    · rw [hd] at gn
      cases gn

theorem Within.later (h : Within top v u) : Later top v u := fun l hl => .inl (h l hl)

theorem NewDirs.later {names : List Bytes} (h : NewDirs names v u) : Later top v u :=
  fun l _ => (h l).imp_right fun ⟨hn, hd, _⟩ => ⟨hn, hd⟩

/-- Whatever is changed inside a directory and made outside it, the path leads there or nowhere. -/
def Anchored (v : Volume) (cwd : Location) (p : Path) (top : Location) : Prop :=
  ∀ u, Later top v u → ∀ e, Opens u cwd p e → e = top

theorem Anchored.opened (h : Anchored v cwd p top) (g : Opens v cwd p e) : e = top :=
  h v (.refl top v) e g

theorem Anchored.later (h : Anchored v cwd p top) (g : Later top v u) : Anchored u cwd p top :=
  fun x hx => h x (g.trans _ _ _ hx)

/-- A path that leads down is anchored where no link stands on it. -/
theorem anchored_of_linkless (down : p.Descends) (h : Linkless (p.place cwd) v) :
    Anchored v cwd p (p.place cwd) := by
  intro u hu e he
  refine he.place down fun l t hb hlink => ?_
  rcases hu l fun g => g.not_above hb with same | ⟨_, dir⟩
  · exact h l t hb (same.symm.trans hlink)
  · rw [dir] at hlink
    cases hlink

theorem anchored_of_absolute (h : Way v cwd p [] p.steps) (start : startOf cwd p.bytes = []) :
    Anchored v cwd p p.steps.reverse := by
  have place : p.place cwd = p.steps.reverse := by simp [Path.place, start]
  rw [← place]
  refine anchored_of_linkless (fun up => (h.steps _ up).notUp rfl) fun l t hb hlink => ?_
  have inside : Inside l [] := by
    refine ⟨below_root l, ?_⟩
    rintro rfl
    cases hlink
  rcases h.free l (by simpa [place] using hb) inside with g | g
  · rw [g] at hlink
    cases hlink
  · rw [g] at hlink
    cases hlink

/-- The path leads to the directory or nowhere. -/
def Led (v : Volume) (cwd : Location) (p : Path) (top : Location) : Prop :=
  ∀ e, Opens v cwd p e → e = top

theorem Anchored.led (h : Anchored v cwd p top) : Led v cwd p top := h v (.refl top v)

theorem Opens.led (h : Opens v cwd p top) : Led v cwd p top := fun _ g => g.unique h

theorem Led.landing {d : Location} {m : Bytes} (h : Led v cwd p top) (hn : IsName (ofText n))
    (hL : reachName v cwd (p / n) = .ok (.name d m)) : m :: d = ofText n :: top := by
  obtain ⟨_, _, e, he, hLe⟩ := (reachName_div hn).1 hL
  cases hLe
  rw [h _ he]

/-- Entries at some places have been removed, and nothing else has happened. -/
def Sheds (P : Location → Prop) (v u : Volume) : Prop := Only P v u ∧ Thins v u

theorem Sheds.refl (P : Location → Prop) (v : Volume) : Sheds P v v := ⟨.refl P v, .refl v⟩

theorem Sheds.trans {P : Location → Prop} (v u w : Volume) (h : Sheds P v u) (g : Sheds P u w) :
    Sheds P v w := ⟨h.1.trans _ _ _ g.1, h.2.trans _ _ _ g.2⟩

theorem Sheds.within {P : Location → Prop} (h : Sheds P v u) (g : ∀ l, P l → Inside l top) :
    Within top v u := h.1.within g

theorem Led.thins (h : Led v cwd p top) (g : Thins v u) : Led u cwd p top :=
  fun e he => h e (he.keep g.poorer.keeps)

/-- If the path leads to the directory, only entries at some places have been removed. -/
def Trims (P : Location → Prop) (cwd : Location) (p : Path) (top : Location) (v u : Volume) : Prop :=
  Led v cwd p top → Sheds P v u

section Trims

variable {P : Location → Prop}

theorem Trims.refl (P : Location → Prop) (cwd : Location) (p : Path) (top : Location) (v : Volume) :
    Trims P cwd p top v v := fun _ => .refl P v

theorem Trims.led (h : Trims P cwd p top v u) (led : Led v cwd p top) : Led u cwd p top :=
  led.thins (h led).2

theorem Trims.trans (v u w : Volume) (h : Trims P cwd p top v u) (g : Trims P cwd p top u w) :
    Trims P cwd p top v w := fun led => (h led).trans _ _ _ (g (h.led led))

theorem trims_erase {l : Location} (h : P l) : Trims P cwd p top v (v.erase l) := by
  refine fun _ => ⟨fun j hj => lookup_erase_ne v ?_, thins_erase v l⟩
  rintro rfl
  exact hj h

end Trims

end Volume

namespace Action

variable {o : Outside} {w w' : World} {cwd top : Location} {p : Path} {n : String} {b : Bytes}

section Led

variable (hn : IsName (ofText n))
include hn

theorem trims_removeFile {P : Location → Prop} (at_ : P (ofText n :: top)) :
    Moves cwd (Trims P cwd p top) (change fun v cwd => v.removeFile cwd (p / n)) := by
  refine moves_change (Trims.refl _ _ _ _) fun v v' h led => ?_
  obtain ⟨d, m, x, hL, _, _, _, rfl⟩ := removeFile_ok h
  rw [led.landing hn hL]
  exact trims_erase at_ led

theorem trims_removeFileIfThere {P : Location → Prop} (at_ : P (ofText n :: top)) :
    Moves cwd (Trims P cwd p top) (removeFileIfThere (p / n)) :=
  moves_removal (Trims.refl _ _ _ _) Trims.trans (trims_removeFile hn at_)

theorem trims_removeTreeIfThere {P : Location → Prop} (below : ∀ l, Below l (ofText n :: top) → P l) :
    Moves cwd (Trims P cwd p top) (removeTreeIfThere (p / n)) := by
  refine moves_ifThere (Trims.refl _ _ _ _) Trims.trans fun o w hw => ?_
  by_cases led : Led w.volume cwd p top
  · unfold removeTree
    refine Moved.bind Trims.trans (moves_ask (Trims.refl _ _ _ _) _ o w hw) fun x w₁ hx => ?_
    rw [run_ask] at hx
    obtain ⟨seen, rfl⟩ := Prod.mk.inj hx
    obtain ⟨l, x⟩ := x
    obtain ⟨_, _, e, he, rfl, _⟩ := (entryAt_div hn).1 seen
    obtain rfl : e = top := led _ (hw ▸ he)
    cases x with
    | file f => exact moves_throw (Trims.refl _ _ _ _) _ o w hw
    | link t => exact trims_removeFile hn (below _ (below_refl _)) o w hw
    | dir =>
      refine Moved.bind Trims.trans (.refl (Trims.refl _ _ _ _) w) fun ls w₁ hls => ?_
      rw [run_look] at hls
      cases hls
      refine moves_bind Trims.trans ?_ (fun _ => ?_) o w hw
      · refine moves_eraseAll (Trims.refl _ _ _ _) Trims.trans fun l hl v => trims_erase ?_
        exact below l (below_of_mem_inside hl).1
      · refine moves_change (Trims.refl _ _ _ _) fun v v' h led => ?_
        obtain ⟨d, m, hL, _, _, rfl⟩ := removeDir_ok h
        rw [led.landing hn hL]
        exact trims_erase (below _ (below_refl _)) led
  · exact (moves_removeTree (p / n) o w rfl).imp fun v _ h => absurd h led

/-- A file that is written where nothing stands is new, and it stands in the directory. -/
theorem run_writeFile_vacant (led : Led w.volume w.cwd p top)
    (vacant : Vacant w.volume w.cwd (p / n)) :
    Moved (Only (· = ofText n :: top)) w ((writeFile (p / n) b).run o w).2 ∧
      ∀ w', (writeFile (p / n) b).run o w = (.ok (), w') → checkPath (p / n) = .ok () ∧
        (ofText n).length ≤ nameLimit ∧ Opens w.volume w.cwd p top ∧
        w.volume.lookup (ofText n :: top) = none ∧ w'.cwd = w.cwd ∧
        ∀ j, w'.volume.lookup j = if j = ofText n :: top then some (.file ⟨b, plainMode, none⟩)
          else w.volume.lookup j := by
  cases hv : w.volume.openFile w.cwd (p / n) plainMode false with
  | error e =>
    rw [run_writeFile, hv]
    exact ⟨.refl (Only.refl _) w, fun _ h => by cases h⟩
  | ok y =>
    obtain ⟨l, v⟩ := y
    obtain ⟨d, m, rfl, _, hL, _⟩ := openFile_ok hv
    obtain ⟨hc, hl, e, he⟩ := reach_div_opens hn hL
    obtain rfl := led _ he
    have free := vacant.lookup hn hc hl he
    obtain ⟨w₁, run, moved, look⟩ := run_writeFile_new (o := o) (b := b) hn hc hl he free
    rw [run]
    refine ⟨moved.imp fun u ⟨f, hf⟩ j hj => (hf j).trans (if_neg hj), fun w' h => ?_⟩
    cases h
    exact ⟨hc, hl, he, free, moved.cwd, look⟩

end Led

end Action

namespace Source

variable {s : Source} {o : Outside} {w w' : World} {deps : Path} {cwd top : Location} {v : Volume}

/-- No entry of the source is left. -/
structure Cleared (s : Source) (deps : Path) (cwd : Location) (v : Volume) : Prop where
  upright : Upright v
  archive : Vacant v cwd (s.archivePath deps)
  src : Vacant v cwd (s.srcDir deps)
  unpacked : Vacant v cwd (s.unpackedDir deps)

/-- Nothing stands where entries of the source stand. -/
def Absent (s : Source) (top : Location) (v : Volume) : Prop := ∀ l, s.Own top l → v.lookup l = none

/-- The archive is there, and no tree of the source. -/
structure Stored (s : Source) (deps : Path) (cwd top : Location) (f : File) (v : Volume) :
    Prop where
  usable : checkPath (s.archivePath deps) = .ok ()
  short : (ofText s.archiveName).length ≤ nameLimit
  opens : Opens v cwd deps top
  archive : v.lookup (s.archiveAt top) = some (.file f)
  unpacked : Gone v (s.unpackedAt top)
  src : Gone v (s.srcAt top)

/-- The body passes the verification, if there is one. -/
def Accepted (s : Source) (o : Outside) (b : Bytes) : Prop :=
  ∀ sha, s.sha256 = some sha → o.digest b = sha

/-- Where nothing of the source stands, no step of unpacking the archive changes anything outside
the tree below the stem, and neither a link for the tree nor a marker in it is unpacked. -/
def Tame (s : Source) (deps : Path) (cwd top : Location) (a : Archive) : Prop :=
  ∀ (o : Outside) w, w.cwd = cwd → Opens w.volume cwd deps top → Gone w.volume (s.unpackedAt top) →
    Gone w.volume (s.srcAt top) →
      Moved (Grows (s.unpackedAt top)) w ((Unpack.unpack a deps).run o w).2

section Steps

variable (named : s.Named)
include named

theorem trims_clearRemnants :
    Moves cwd (Trims (s.Own top) cwd deps top) (s.clearRemnants deps) := by
  refine moves_mapError _ (moves_bind Trims.trans
    (trims_removeFileIfThere named.archive (own_archive s top)) fun _ => ?_)
  exact moves_bind Trims.trans (trims_removeTreeIfThere named.src fun _ => own_of_src) fun _ =>
    trims_removeTreeIfThere named.stem fun _ => own_of_unpacked

theorem clearRemnants_clears (upright : Upright w.volume)
    (run : (s.clearRemnants deps).run o w = (.ok (), w')) : s.Cleared deps w'.cwd w'.volume := by
  have vacant := clearRemnants_vacates run
  obtain ⟨_, w₁, run₁, run⟩ := run_bind_ok.1 (run_mapError_ok.1 run)
  obtain ⟨_, w₂, run₂, run₃⟩ := run_bind_ok.1 run
  have upright₁ := (upright_removeFileIfThere (s.archivePath deps) o w rfl).now
  rw [run₁] at upright₁
  have src := treeRemoved (srcDir_endsInName s deps) run₂
  have unpacked := treeRemoved (Path.endsInName_div deps named.stem) run₃
  exact ⟨unpacked.upright (src.upright (upright₁ upright)), vacant _ (by simp [places]),
    vacant _ (by simp [places]), vacant _ (by simp [places])⟩

/-- Where the path leads to the directory and the names can be used, nothing stands there. -/
theorem Cleared.absent (h : s.Cleared deps cwd v) (usable : checkPath (s.archivePath deps) = .ok ())
    (short : (ofText s.archiveName).length ≤ nameLimit) (opens : Opens v cwd deps top) :
    s.Absent top v := by
  have gone : ∀ ending : String, slash ∉ ofText ending → 0 ∉ ofText ending →
      (ofText ending).length ≤ 7 → Vacant v cwd (deps / (s.stem ++ ending)) →
      Gone v (ofText (s.stem ++ ending) :: top) := by
    intro ending plain hnul len vacant
    obtain ⟨fit, room⟩ := named.fits usable short ending plain hnul len
    exact h.upright.gone (vacant.lookup (named.isName ending plain) fit room opens)
  have unpacked := gone "" (by decide) (by decide) (by decide)
  rw [String.append_empty] at unpacked
  rintro l (rfl | hl | hl)
  · exact h.archive.lookup named.archive usable short opens
  · exact unpacked h.unpacked l hl
  · exact gone ".src" (by decide) (by decide) (by decide) h.src l hl

/-- A download changes nothing but the archive, and if it succeeds, the archive is there and has
been accepted. -/
theorem run_download_cleared (led : Led w.volume w.cwd deps top)
    (cleared : s.Cleared deps w.cwd w.volume) :
    Moved (Only (s.Own top)) w ((download s.url (s.archivePath deps) s.sha256).run o w).2 ∧
      ∀ w', (download s.url (s.archivePath deps) s.sha256).run o w = (.ok (), w') →
        ∃ f, s.Accepted o f.bytes ∧ f.peers = none ∧ s.Absent top w.volume ∧ s.Stored deps w'.cwd top f w'.volume ∧
          (w.volume.lookup top = some .dir → Upright w'.volume) := by
  have request : Moved (Only (s.Own top)) w (asked o s.url w) := ⟨rfl, .refl _ _, [_], rfl, by simp⟩
  rcases run_download_cases o s.url (s.archivePath deps) s.sha256 with
    ⟨_, _, ends⟩ | ⟨body, delivers, ends⟩
  · rw [ends]
    exact ⟨request, fun _ h => by cases h⟩
  rw [ends]
  obtain ⟨writing, written⟩ := run_writeFile_vacant (o := o) (w := asked o s.url w) (b := body)
    named.archive led cleared.archive
  refine ⟨request.trans Only.trans (writing.imp fun u hu => hu.mono fun _ hl => .inl hl), ?_⟩
  intro w' run
  obtain ⟨hc, hl, opens, free, hcwd, look⟩ := written w' (run_mapError_ok.1 run)
  have absent : s.Absent top w.volume := cleared.absent named hc hl opens
  refine ⟨⟨body, plainMode, none⟩, delivers.verified, rfl, absent,
    ⟨hc, hl, ?_, (look _).trans (if_pos rfl), ?_, ?_⟩, fun there => cleared.upright.file there free look⟩
  · rw [hcwd]
    refine opens.keep fun l x hx _ => ?_
    rw [look, if_neg, hx]
    rintro rfl
    rw [free] at hx
    cases hx
  · intro j hj
    exact ((look j).trans (if_neg (ne_archiveAt_of_unpacked hj))).trans (absent j (own_of_unpacked hj))
  · intro j hj
    exact ((look j).trans (if_neg (ne_archiveAt_of_src hj))).trans (absent j (own_of_src hj))

/-- An archive that is there is read as what it holds. -/
theorem run_extract_stored {f : File} (stored : s.Stored deps w.cwd top f w.volume) :
    (extract (s.archivePath deps) deps).run o w = ((Unpack.unpack (o.archive f.bytes) deps).mapError
      fun _ => BuildError.extract (s.archivePath deps) .notUnpacked).run o w := by
  have seen : w.volume.stat w.cwd (s.archivePath deps) = .ok (s.archiveAt top, .file f) :=
    stat_eq named.archive stored.usable stored.short stored.opens stored.archive (by simp)
  unfold extract
  rw [run_bind, run_mapError, run_ask, seen]
  rfl

theorem extract_grows {f : File} (stored : s.Stored deps w.cwd top f w.volume)
    (tame : s.Tame deps w.cwd top (o.archive f.bytes)) :
    Moved (Grows (s.unpackedAt top)) w ((extract (s.archivePath deps) deps).run o w).2 := by
  rw [run_extract_stored named stored]
  exact moved_mapError _ (tame o w rfl stored.opens stored.unpacked stored.src)

/-- While the path leads to the directory, the tree is moved inside it. -/
theorem rename_within {u x : Volume} (led : Led u cwd deps top)
    (h : u.rename cwd (s.unpackedDir deps) (s.srcDir deps) = .ok x) :
    Only (s.Own top) u x ∧ (x = u ∨ x = u.relocate (s.unpackedAt top) (s.srcAt top)) := by
  obtain ⟨d, n, d', n', hL, hL', _, hx⟩ := rename_ok h
  rw [led.landing named.stem hL, led.landing named.src hL'] at hx
  rcases hx with rfl | ⟨_, _, _, rfl⟩
  · exact ⟨.refl _ x, .inl rfl⟩
  · refine ⟨fun l hl => ?_, .inr rfl⟩
    exact lookup_relocate_of_not_below (fun b => hl (own_of_unpacked b)) fun b => hl (own_of_src b)

theorem rename_upright {u x : Volume} (led : Led u cwd deps top) (upright : Upright u)
    (there : u.lookup top = some .dir)
    (h : u.rename cwd (s.unpackedDir deps) (s.srcDir deps) = .ok x) : Upright x := by
  obtain ⟨d, n, d', n', hL, hL', -, hx⟩ := rename_ok h
  rw [led.landing named.stem hL, led.landing named.src hL'] at hx
  rcases hx with rfl | ⟨away, -, empty, rfl⟩
  · exact upright
  · exact upright.relocate (by simp) there away (upright.hollow empty)

/-- Once the unpacked tree has been put in its place, the marker can only land in it. -/
theorem rename_places {u x : Volume} (led : Led u cwd deps top)
    (gone : Gone v (s.srcAt top)) (g : Grows (s.unpackedAt top) v u)
    (h : u.rename cwd (s.unpackedDir deps) (s.srcDir deps) = .ok x) :
    Only (s.Own top) u x ∧ (∀ t, x.lookup (s.srcAt top) ≠ some (.link t)) ∧
      x.lookup (s.markerAt top) = none := by
  have gone : Gone u (s.srcAt top) := gone.congr fun j hj => g.outside j (not_unpacked_of_src hj)
  obtain ⟨only, hx⟩ := rename_within named led h
  refine ⟨only, ?_⟩
  rcases hx with rfl | rfl
  · exact ⟨fun t hlink => by simp [gone _ (below_refl _)] at hlink, gone _ (markerAt_below s top)⟩
  · refine ⟨fun t hlink => ?_, (lookup_placed gone [ofText markerName]).trans g.marker⟩
    exact g.tree.not_link t ((lookup_placed gone []).symm.trans hlink)

/-- The marker lands in the source directory, if that is no link and has no marker yet. -/
theorem marker_within (led : Led w.volume w.cwd deps top)
    (nolink : ∀ t, w.volume.lookup (s.srcAt top) ≠ some (.link t))
    (nomarker : w.volume.lookup (s.markerAt top) = none) (b : Bytes) :
    Moved (Only (s.Own top)) w ((writeFile (s.marker deps) b).run o w).2 := by
  have leads : ∀ e, Opens w.volume w.cwd (s.srcDir deps) e → e = s.srcAt top := by
    intro e he
    obtain ⟨d, hd, hed⟩ := he.of_div named.src
    obtain rfl := led d hd
    rcases hed with rfl | ⟨t, hlink⟩
    · rfl
    · exact absurd hlink (nolink t)
  cases hv : w.volume.openFile w.cwd (s.marker deps) plainMode false with
  | error e =>
    rw [run_writeFile, hv]
    exact .refl (Only.refl _) w
  | ok y =>
    obtain ⟨l, v⟩ := y
    obtain ⟨d, m, rfl, _, hL, _⟩ := openFile_ok hv
    obtain ⟨hc, hl, e, he⟩ := reach_div_opens isName_marker hL
    obtain rfl := leads e he
    obtain ⟨w₁, run, moved, _⟩ := run_writeFile_new (o := o) (b := b) isName_marker hc hl he nomarker
    rw [show (writeFile (s.marker deps) b).run o w = _ from run]
    refine moved.imp fun u ⟨f, hf⟩ j hj => ?_
    rw [hf, if_neg]
    rintro rfl
    exact hj (own_of_src (markerAt_below s top))

/-- What comes after the archive has been unpacked. -/
def settle (s : Source) (deps archive : Path) : Action IoError Unit := do
  change fun v cwd => v.rename cwd (s.unpackedDir deps) (s.srcDir deps)
  removeFileIfThere archive
  writeFile (s.marker deps) (Bytes.ofText markerText)

omit named in
/-- From where the archive is stored, changes to what the source owns do not touch the way to the
directory: on it stands nothing of the source. -/
theorem Stored.keeps {f : File} {u : Volume} (stored : s.Stored deps cwd top f v)
    (h : Only (s.Own top) v u) : Keeps v u := by
  intro l x hx notFile
  have foreign : ¬ s.Own top l := by
    rintro (rfl | hl | hl)
    · rw [stored.archive] at hx
      cases hx
      exact notFile f rfl
    · rw [stored.unpacked l hl] at hx
      cases hx
    · rw [stored.src l hl] at hx
      cases hx
  exact (h l foreign).trans hx

omit named in
theorem Stored.led {f : File} {u : Volume} (stored : s.Stored deps cwd top f v)
    (h : Only (s.Own top) v u) : Led u cwd deps top := (stored.opens.keep (stored.keeps h)).led

theorem settle_within {f : File} (stored : s.Stored deps w.cwd top f v)
    (g : Grows (s.unpackedAt top) v w.volume) :
    Moved (Only (s.Own top)) w ((s.settle deps (s.archivePath deps)).run o w).2 := by
  have grown : Only (s.Own top) v w.volume := fun l hl => g.outside l fun b => hl (own_of_unpacked b)
  unfold settle
  rw [run_bind, run_change]
  cases hx : w.volume.rename w.cwd (s.unpackedDir deps) (s.srcDir deps) with
  | error e => exact .refl (Only.refl _) w
  | ok x =>
    obtain ⟨placing, nolink, nomarker⟩ := rename_places named (stored.led grown) stored.src g hx
    have placed : Only (s.Own top) v x := grown.trans _ _ _ placing
    have first : Moved (Only (s.Own top)) w (w.set x) := .set placing
    have cleared : Moved (Only (s.Own top)) (w.set x)
        ((removeFileIfThere (s.archivePath deps)).run o (w.set x)).2 :=
      (trims_removeFileIfThere named.archive (own_archive s top) o (w.set x) rfl).imp
        fun u hu => (hu (stored.led placed)).1
    have thins := moves_removeFileIfThere (s.archivePath deps) o (w.set x) rfl
    refine first.trans Only.trans (cleared.bind Only.trans fun _ w₂ run₂ => ?_)
    rw [run₂] at cleared thins
    have led : Led w₂.volume w₂.cwd deps top :=
      cleared.cwd ▸ stored.led (placed.trans _ _ _ cleared.now)
    exact marker_within named led (fun t h => nolink t (thins.now _ _ h)) (thins.now.none nomarker) _

theorem unpack_within {f : File} (stored : s.Stored deps w.cwd top f w.volume)
    (tame : s.Tame deps w.cwd top (o.archive f.bytes)) :
    Moved (Only (s.Own top)) w ((s.unpack deps (s.archivePath deps)).run o w).2 := by
  have grown := extract_grows (o := o) named stored tame
  have extracted : Moved (Only (s.Own top)) w _ :=
    grown.imp fun u hu l hl => hu.outside l fun b => hl (own_of_unpacked b)
  refine Moved.bind Only.trans extracted fun _ w₁ run₁ => ?_
  rw [run₁] at grown
  exact moved_mapError _ (settle_within named (grown.cwd ▸ stored) grown.now)

end Steps

/-- The world once the directory has been made, which is only done for a source that is not there. -/
def made (s : Source) (deps : Path) (o : Outside) (w : World) : World :=
  if s.isExtracted deps w.volume w.cwd then w else ((ensureDir deps).run o w).2

theorem made_of_extracted (h : s.isExtracted deps w.volume w.cwd = true) : s.made deps o w = w :=
  if_pos h

theorem made_of_missing (h : s.isExtracted deps w.volume w.cwd = false) :
    s.made deps o w = ((ensureDir deps).run o w).2 := if_neg (by simp [h])

theorem upright_made (upright : Upright w.volume) (here : w.volume.lookup w.cwd = some .dir) :
    Upright (s.made deps o w).volume := by
  unfold made
  split
  · exact upright
  · exact ((upright_ensureDir deps o w rfl).now ⟨upright, here⟩).1

section Acquire

variable (named : s.Named)
include named

/-- Once the directory has been made, an acquisition only removes entries of the source; if any
others change after that, they are entries of the source too, and none of them was left. -/
theorem acquire_footprint (upright : Upright (s.made deps o w).volume)
    (led : Led (s.made deps o w).volume w.cwd deps top)
    (tame : ∀ b, s.Accepted o b → s.Tame deps w.cwd top (o.archive b)) :
    ∃ w₁, Moved (Sheds (s.Own top)) (s.made deps o w) w₁ ∧
      Moved (Only (s.Own top)) w₁ ((s.acquire deps).run o w).2 ∧
      (((s.acquire deps).run o w).2.volume = w₁.volume ∨ s.Absent top w₁.volume) := by
  by_cases seen : s.isExtracted deps w.volume w.cwd = true
  · rw [made_of_extracted seen, run_acquire_cached seen]
    exact ⟨w, .refl (Sheds.refl _) w, .refl (Only.refl _) w, .inl rfl⟩
  have unseen : s.isExtracted deps w.volume w.cwd = false := by simpa using seen
  rw [made_of_missing unseen] at upright led ⊢
  have cwd₁ := (moves_ensureDir deps o w rfl).cwd
  rcases run₁ : (ensureDir deps).run o w with ⟨x | _, w₁⟩
  · rw [run_acquire_unmade unseen run₁]
    exact ⟨w₁, .refl (Sheds.refl _) w₁, .refl (Only.refl _) w₁, .inl rfl⟩
  rw [run₁] at upright led cwd₁
  rw [run_acquire_made unseen run₁]
  unfold fill
  have trimmed : Moved (Trims (s.Own top) w₁.cwd deps top) w₁ _ :=
    trims_clearRemnants named o w₁ rfl
  have led₁ : Led w₁.volume w₁.cwd deps top := cwd₁.symm ▸ led
  rcases run₂ : (s.clearRemnants deps).run o w₁ with ⟨e | _, w₂⟩
  · rw [run₂] at trimmed
    rw [run_bind_of_error run₂]
    exact ⟨w₂, trimmed.imp fun u hu => hu led₁, .refl (Only.refl _) w₂, .inl rfl⟩
  rw [run₂] at trimmed
  have cleared := clearRemnants_clears named upright run₂
  have led₂ : Led w₂.volume w₂.cwd deps top := trimmed.cwd ▸ trimmed.now.led led₁
  obtain ⟨loading, stores⟩ := run_download_cleared (o := o) named led₂ cleared
  rw [run_bind_of_ok run₂]
  refine ⟨w₂, trimmed.imp fun u hu => hu led₁, ?_⟩
  rcases run₃ : (download s.url (s.archivePath deps) s.sha256).run o w₂ with ⟨e | _, w₃⟩
  · rw [run₃] at loading
    rw [run_bind_of_error run₃]
    exact ⟨loading, .inl (download_failed run₃)⟩
  rw [run₃] at loading
  obtain ⟨f, accepted, -, absent, stored, -⟩ := stores w₃ run₃
  have cwd₃ : w₃.cwd = w.cwd := loading.cwd.trans (trimmed.cwd.trans cwd₁)
  have unpacking := unpack_within named stored (cwd₃ ▸ tame _ accepted)
  rw [run_bind_of_ok run₃]
  refine ⟨loading.trans Only.trans (unpacking.bind Only.trans ?_), .inr absent⟩
  exact fun _ w₄ _ => .refl (Only.refl _) w₄

variable (upright : Upright w.volume) (here : w.volume.lookup w.cwd = some .dir)
include upright here

/-- An acquisition makes the directory, in whatever way that is known of, and from then on changes
nothing outside it. -/
theorem acquire_confined_of {R : Volume → Volume → Prop} (hr : ∀ v, R v v)
    (ensured : Moved R w ((ensureDir deps).run o w).2) (anchored : Anchored w.volume w.cwd deps top)
    (tame : ∀ b, s.Accepted o b → s.Tame deps w.cwd top (o.archive b)) :
    ∃ w₁, Moved R w w₁ ∧
      Moved (Within top) w₁ ((s.acquire deps).run o w).2 := by
  have first : Moved R w (s.made deps o w) ∧ Later top w.volume (s.made deps o w).volume := by
    unfold made
    split
    · exact ⟨.refl hr w, .refl top _⟩
    · exact ⟨ensured, (moves_ensureDir deps o w rfl).now.later⟩
  obtain ⟨w₁, sheds, only, -⟩ :=
    acquire_footprint named (upright_made upright here) (anchored.later first.2).led tame
  have inside : ∀ l, s.Own top l → Inside l top := fun _ => Own.inside
  exact ⟨_, first.1, (sheds.imp fun _ h => h.within inside).trans Within.trans
    (only.imp fun _ h => h.within inside)⟩

theorem acquire_confined (anchored : Anchored w.volume w.cwd deps top)
    (tame : ∀ b, s.Accepted o b → s.Tame deps w.cwd top (o.archive b)) :
    ∃ w₁, Moved (NewDirs deps.steps) w w₁ ∧
      Moved (Within top) w₁ ((s.acquire deps).run o w).2 :=
  acquire_confined_of named upright here (NewDirs.refl _) (moves_ensureDir deps o w rfl) anchored tame

end Acquire

end Source
end PinnedDeps
