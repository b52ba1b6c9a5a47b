import PinnedDeps.Proofs.Archive.Confined
import PinnedDeps.Proofs.Source.Confinement
import PinnedDeps.Proofs.Volume.Sharing

/-!
Acquisitions that change something outside the directory of dependencies. Apart from the making of
the directory, only the steps after the unpacking can: the paths that they use lead where the
archive has put links.
-/
namespace PinnedDeps

open Bytes (ofText)
open Volume PinnedDeps.Action

namespace Volume

variable {v u : Volume} {N : Nat} {cwd d l j top : Location} {parts : List Bytes} {p q : Path}
  {L : Landing}

/-- The second volume has some more directories, and one of the paths leads to each of them. -/
def MadeAlong (cwd : Location) (qs : List Path) (v u : Volume) : Prop :=
  ∀ l, u.lookup l = v.lookup l ∨
    v.lookup l = none ∧ u.lookup l = some .dir ∧ ∃ q ∈ qs, Opens u cwd q l

theorem MadeAlong.refl (cwd : Location) (qs : List Path) (v : Volume) : MadeAlong cwd qs v v :=
  fun _ => .inl rfl

theorem MadeAlong.keeps {qs : List Path} (h : MadeAlong cwd qs v u) : Keeps v u := by
  intro l x hx _
  rcases h l with g | ⟨g, _⟩
  · rw [g, hx]
  · rw [hx] at g
    cases g

theorem MadeAlong.trans {qs : List Path} (v u x : Volume) (h : MadeAlong cwd qs v u)
    (g : MadeAlong cwd qs u x) : MadeAlong cwd qs v x := by
  intro l
  rcases h l with h | ⟨hn, hd, q, hq, opens⟩
  · rw [← h]
    exact g l
  · exact .inr ⟨hn, g.keeps l .dir hd (by simp), q, hq, opens.keep g.keeps⟩

theorem madeAlong_makeDir {qs : List Path} (hq : q ∈ qs) (h : v.makeDir cwd q = .ok u) :
    MadeAlong cwd qs v u := by
  obtain ⟨d, n, hL, hn, rfl⟩ := makeDir_ok h
  have here : (v.put (n :: d) .dir).lookup (n :: d) = some .dir :=
    (lookup_put v _ _ (by simp)).trans (if_pos rfl)
  intro l
  by_cases hl : l = n :: d
  · subst hl
    exact .inr ⟨hn, here, q, hq, makeDir_opens hL hn⟩
  · exact .inl (lookup_put_ne v _ hl)

end Volume

namespace Action

variable {ε α : Type} {o : Outside} {w w₁ w' : World} {cwd top l : Location} {p : Path} {b : Bytes}
  {R T T' : Volume → Volume → Prop}

/-- Making a directory makes the directories that the paths above it lead to. -/
theorem madeAlong_ensureDir (p : Path) : Moves cwd (MadeAlong cwd p.ancestors) (ensureDir p) :=
  moves_ensureDir_of (MadeAlong.refl cwd _) MadeAlong.trans fun _ hq _ _ h => madeAlong_makeDir hq h

/-- What holds of all volumes of a longer run holds of those that a part of it has passed. -/
theorem Moved.passes {v : Volume} (h : Moved R w w') (g : Moved T w w₁)
    (k : Moved T' (w₁.set v) w') : R w.volume v := by
  obtain ⟨new, hnew, passed⟩ := h.passed
  obtain ⟨old, hold, _⟩ := g.passed
  obtain ⟨more, hmore, _⟩ := k.passed
  refine passed v ?_
  have : new ++ w.trace = (more ++ .changed v :: old) ++ w.trace := by
    rw [← hnew, hmore]
    show more ++ .changed v :: w₁.trace = _
    rw [hold]
    simp
  rw [List.append_cancel_right this]
  simp

/-- A run that keeps within a directory has kept within it from any point on. -/
theorem Moved.within_after (h : Moved (Within top) w w') (g : Moved (Within top) w w₁)
    (k : Moved T w₁ w') : Moved (Within top) w₁ w' := by
  obtain ⟨new, hnew, passed⟩ := h.passed
  obtain ⟨old, hold, _⟩ := g.passed
  obtain ⟨more, hmore, _⟩ := k.passed
  have turn : ∀ u, Within top w.volume u → Within top w₁.volume u :=
    fun u hu j hj => (hu j hj).trans (g.now j hj).symm
  refine ⟨k.cwd, turn _ h.now, more, hmore, fun v hv => turn v (passed v ?_)⟩
  have : new ++ w.trace = (more ++ old) ++ w.trace := by
    rw [← hnew, hmore, hold, List.append_assoc]
  rw [List.append_cancel_right this]
  exact List.mem_append_left _ hv

/-- A written file keeps within a directory if it has no name outside it. -/
theorem writeFile_within_iff {u : Volume} (text : b ≠ [])
    (h : w.volume.openFile w.cwd p plainMode false = .ok (l, u)) :
    Moved (Within top) w ((writeFile p b).run o w).2 ↔ ∀ j, Shows w.volume l j → Inside j top := by
  rw [run_writeFile, h]
  simp only
  obtain ⟨d, n, rfl, _, _, ⟨new, rfl⟩ | ⟨f, old, hu⟩⟩ := openFile_ok h
  · have made := lookup_put_if w.volume (List.cons_ne_nil n d) (.file ⟨[], plainMode, none⟩)
    have written := lookup_adjust_new (fun f => { f with bytes := f.bytes ++ b }) made rfl
    constructor
    · rintro moved j (rfl | ⟨f, _, hf, _⟩)
      · refine Decidable.byContradiction fun outside => ?_
        have := (moved.now (n :: d) outside).symm.trans (written (n :: d))
        rw [new, if_pos rfl] at this
        cases this
      · rw [new] at hf
        cases hf
    · intro inside
      have here := inside _ (.inl rfl)
      have other : ∀ j, ¬ Inside j top → j ≠ n :: d := by
        rintro j hj rfl
        exact hj here
      have first : Moved (Within top) w (w.set _) :=
        .set fun j hj => (made j).trans (if_neg (other j hj))
      refine first.trans Within.trans (.set fun j hj => ?_)
      exact (written j).trans ((if_neg (other j hj)).trans (first.now j hj).symm)
  · obtain rfl : u = w.volume.adjust (n :: d) ({ · with bytes := [] }) := by simpa using hu
    have emptied := lookup_adjust_shows (fun f => { f with bytes := [] }) old
    have there := (emptied _).1 (.inl rfl)
    have written := lookup_adjust_shows (fun f => { f with bytes := f.bytes ++ b }) there
    have same : ∀ j, Shows (w.volume.adjust (n :: d) ({ · with bytes := [] })) (n :: d) j ↔
        Shows w.volume (n :: d) j := shows_adjust (fun _ => rfl) old
    constructor
    · intro moved j shows_
      refine Decidable.byContradiction fun outside => ?_
      -- The bytes at the other name are first none and then the text.
      have first : Within top w.volume _ := moved.passes
        (.refl (Within.refl top) w) (Moved.set (R := fun _ _ => True) trivial)
      have before := (emptied j).1 shows_
      have after := (written j).1 ((same j).2 shows_)
      rw [first j outside] at before
      have last := (moved.now j outside).symm.trans after
      rw [before] at last
      simp at last
      exact text last
    · intro inside
      have apart : ∀ j, ¬ Inside j top → ¬ Shows w.volume (n :: d) j := fun j hj hs => hj (inside j hs)
      have first : Moved (Within top) w (w.set _) := .set fun j hj => (emptied j).2 (apart j hj)
      exact first.trans Within.trans (.set fun j hj =>
        (written j).2 fun hs => apart j hj ((same j).1 hs))

end Action

namespace Source

variable {s : Source} {o : Outside} {w w₁ w' : World} {deps archive : Path} {top : Location}

/-- The ways in which the steps after the unpacking change something outside the directory: the path
to it leads elsewhere by then, the archive is not in it, or the marker is led out of it. -/
inductive Strays (s : Source) (deps archive : Path) (top : Location) (o : Outside) (w : World) : Prop
  | moving {e v} (opens : Opens w.volume w.cwd deps e) (astray : e ≠ top)
      (moved : w.volume.rename w.cwd (s.unpackedDir deps) (s.srcDir deps) = .ok v)
      (outside : ¬ Within top w.volume v)
  | clearing {v u} (moved : w.volume.rename w.cwd (s.unpackedDir deps) (s.srcDir deps) = .ok v)
      (removed : v.removeFile w.cwd archive = .ok u) (outside : ¬ Within top v u)
  | marking {v w₁ l u j}
      (moved : w.volume.rename w.cwd (s.unpackedDir deps) (s.srcDir deps) = .ok v)
      (cleared : (removeFileIfThere archive).run o (w.set v) = (.ok (), w₁))
      (opened : w₁.volume.openFile w₁.cwd (s.marker deps) plainMode false = .ok (l, u))
      (shows_ : Shows w₁.volume l j) (outside : ¬ Inside j top)

/-- What a removal of a file that is there, or is not, has come to. -/
theorem removeFileIfThere_ok {p : Path} (h : (removeFileIfThere p).run o w = (.ok (), w')) :
    w' = w ∨ ∃ v, w.volume.removeFile w.cwd p = .ok v ∧ w' = w.set v := by
  rw [run_removeFileIfThere] at h
  cases hv : w.volume.removeFile w.cwd p with
  | ok v =>
    rw [hv] at h
    cases h
    exact .inr ⟨v, rfl, rfl⟩
  | error e =>
    rw [hv] at h
    exact .inl (congrArg Prod.snd h).symm

theorem markerText_ne_nil : ofText markerText ≠ [] := by decide

/-- What is done once the tree has been moved. -/
def finish (s : Source) (deps archive : Path) : Action IoError Unit := do
  removeFileIfThere archive
  writeFile (s.marker deps) (ofText markerText)

theorem run_settle_moved {v : Volume}
    (moved : w.volume.rename w.cwd (s.unpackedDir deps) (s.srcDir deps) = .ok v) :
    (s.settle deps archive).run o w = (s.finish deps archive).run o (w.set v) := by
  unfold settle
  rw [run_bind, run_change, moved]
  rfl

/-- Nothing is asked of the volumes on the way. -/
theorem passed_writeFile (p : Path) (b : Bytes) :
    Moved (fun _ _ => True) w ((writeFile p b).run o w).2 :=
  (moves_writeFile p b o w rfl).imp fun _ _ => trivial

theorem passed_finish : Moved (fun _ _ => True) w ((s.finish deps archive).run o w).2 :=
  Moved.bind (fun _ _ _ _ _ => trivial)
    ((moves_removeFileIfThere archive o w rfl).imp fun _ _ => trivial) fun _ _ _ => passed_writeFile _ _

theorem passed_settle : Moved (fun _ _ => True) w ((s.settle deps archive).run o w).2 := by
  cases moved : w.volume.rename w.cwd (s.unpackedDir deps) (s.srcDir deps) with
  | error e =>
    unfold settle
    rw [run_bind, run_change, moved]
    exact .refl (fun _ => trivial) w
  | ok v =>
    rw [run_settle_moved moved]
    exact Moved.trans (fun _ _ _ _ _ => trivial) (.set trivial) passed_finish

theorem not_strays_of_within (h : Moved (Within top) w ((s.settle deps archive).run o w).2) :
    ¬ s.Strays deps archive top o w := by
  have first : ∀ {v}, w.volume.rename w.cwd (s.unpackedDir deps) (s.srcDir deps) = .ok v →
      Within top w.volume v := by
    intro v moved
    rw [run_settle_moved moved] at h
    exact h.passes (.refl (Within.refl top) w) passed_finish
  have second : ∀ {v u}, w.volume.rename w.cwd (s.unpackedDir deps) (s.srcDir deps) = .ok v →
      v.removeFile w.cwd archive = .ok u → Within top w.volume u := by
    intro v u moved removed
    have cleared : (removeFileIfThere archive).run o (w.set v) = (.ok (), (w.set v).set u) := by
      rw [run_removeFileIfThere, World.set_volume, World.set_cwd, removed]
    rw [run_settle_moved moved, finish, run_bind_of_ok cleared] at h
    exact h.passes (.set (first moved)) (passed_writeFile _ _)
  rintro (⟨_, _, moved, outside⟩ | ⟨moved, removed, outside⟩ | ⟨moved, cleared, opened, shows_, outside⟩)
  · exact outside (first moved)
  · exact outside fun j hj => (second moved removed j hj).trans (first moved j hj).symm
  · have before : Moved (Within top) w _ := .set (first moved)
    rw [run_settle_moved moved, finish, run_bind_of_ok cleared] at h
    rcases removeFileIfThere_ok cleared with rfl | ⟨u, removed, rfl⟩
    · have last := h.within_after before (passed_writeFile _ _)
      exact outside ((writeFile_within_iff markerText_ne_nil opened).1 last _ shows_)
    · have both : Moved (Within top) (w.set _) ((w.set _).set u) :=
        .set fun j hj => (second moved removed j hj).trans (first moved j hj).symm
      have last := h.within_after (before.trans Within.trans both) (passed_writeFile _ _)
      exact outside ((writeFile_within_iff markerText_ne_nil opened).1 last _ shows_)

/-- From the moving of the tree on, nothing but these ways leads out of the directory. -/
theorem settle_within_iff (named : s.Named) :
    Moved (Within top) w ((s.settle deps archive).run o w).2 ↔ ¬ s.Strays deps archive top o w := by
  refine ⟨not_strays_of_within, fun safe => ?_⟩
  cases moved : w.volume.rename w.cwd (s.unpackedDir deps) (s.srcDir deps) with
  | error e =>
    unfold settle
    rw [run_bind, run_change, moved]
    exact .refl (Within.refl top) w
  | ok v =>
    have within : Within top w.volume v := by
      refine Classical.byContradiction fun outside => ?_
      obtain ⟨d, n, d', n', hL, _⟩ := rename_ok moved
      obtain ⟨_, _, e, opens, _⟩ := (reachName_div named.stem).1 hL
      refine safe (.moving opens ?_ moved outside)
      rintro rfl
      exact outside ((rename_within named opens.led moved).1.within fun _ => Own.inside)
    have first : Moved (Within top) w (w.set v) := .set within
    rw [run_settle_moved moved]
    have clearing : Moved (Within top) (w.set v) ((removeFileIfThere archive).run o (w.set v)).2 := by
      rw [run_removeFileIfThere]
      cases removed : (w.set v).volume.removeFile (w.set v).cwd archive with
      | error e => exact .refl (Within.refl top) _
      | ok u => exact .set (Classical.byContradiction fun outside => safe (.clearing moved removed outside))
    refine first.trans Within.trans (clearing.bind Within.trans fun _ w₁ cleared => ?_)
    cases opened : w₁.volume.openFile w₁.cwd (s.marker deps) plainMode false with
    | error e =>
      rw [run_writeFile, opened]
      exact .refl (Within.refl top) _
    | ok y =>
      refine (writeFile_within_iff markerText_ne_nil opened).2 fun j shows_ => ?_
      exact Decidable.byContradiction fun outside => safe (.marking moved cleared opened shows_ outside)

/-- Extracted into a directory, an archive changes nothing outside it. -/
theorem extract_builds (ground : Ground top w.volume) (usable : Usable top)
    (opens : Opens w.volume w.cwd deps top) : Moved (fun v u => Within top v u ∧ Ground top u) w
      ((extract archive deps).run o w).2 := by
  have unpacked : ∀ a, Moved (fun v u => Within top v u ∧ Ground top u) w
      ((Unpack.unpack a deps).run o w).2 := fun a => Unpack.unpack_within a ground usable opens
  unfold extract
  rw [run_bind, run_mapError, run_ask]
  cases w.volume.stat w.cwd archive with
  | error e => exact ⟨rfl, ⟨.refl top _, ground⟩, [], rfl, by simp⟩
  | ok y =>
    obtain ⟨l, x⟩ := y
    cases x with
    | file f => exact unpacked (o.archive f.bytes)
    | dir => exact unpacked ⟨[], false⟩
    | link t => exact unpacked ⟨[], false⟩

theorem extract_within (ground : Ground top w.volume) (usable : Usable top)
    (opens : Opens w.volume w.cwd deps top) :
    Moved (Within top) w ((extract archive deps).run o w).2 :=
  (extract_builds ground usable opens).imp fun _ h => h.1

theorem unpack_within_iff (named : s.Named) (ground : Ground top w.volume) (usable : Usable top)
    (opens : Opens w.volume w.cwd deps top) :
    Moved (Within top) w ((s.unpack deps archive).run o w).2 ↔ ∀ w₁,
      (extract archive deps).run o w = (.ok (), w₁) → ¬ s.Strays deps archive top o w₁ := by
  have extracted : Moved (Within top) w ((extract archive deps).run o w).2 :=
    extract_within ground usable opens
  rcases run : (extract archive deps).run o w with ⟨e | _, w₁⟩
  · rw [run] at extracted
    have stopped : (s.unpack deps archive).run o w = (.error e, w₁) := run_bind_of_error run
    rw [stopped]
    constructor
    · intro _ _ h
      cases h
    · exact fun _ => extracted
  · rw [run] at extracted
    have next : (s.unpack deps archive).run o w = (io (s.settle deps archive)).run o w₁ :=
      run_bind_of_ok run
    rw [next]
    show Moved (Within top) w ((s.settle deps archive).run o w₁).2 ↔ _
    constructor
    · rintro moved _ ⟨rfl⟩
      exact (settle_within_iff named).1 (moved.within_after extracted passed_settle)
    · intro safe
      exact extracted.trans Within.trans ((settle_within_iff named).2 (safe w₁ rfl))

/-- Once the directory has been made, nothing outside it is changed before the unpacking. -/
theorem fetchArchive_within (named : s.Named) (run₁ : (ensureDir deps).run o w = (.ok (), w₁))
    (upright : Upright w₁.volume) (here : w₁.volume.lookup w₁.cwd = some .dir) (usable : Usable w₁.cwd)
    (led : Led w₁.volume w₁.cwd deps top) :
    Moved (Within top) w₁ ((s.fetchArchive deps).run o w).2 ∧ ∀ w₂,
      (s.fetchArchive deps).run o w = (.ok (), w₂) →
        Ground top w₂.volume ∧ Usable top ∧
          ∃ f, s.Accepted o f.bytes ∧ s.Stored deps w₂.cwd top f w₂.volume := by
  have done : (io (ensureDir deps)).run o w = (.ok (), w₁) := run_mapError_ok.2 run₁
  have trimmed : Moved (Trims (s.Own top) w₁.cwd deps top) w₁ ((s.clearRemnants deps).run o w₁).2 :=
    trims_clearRemnants named o w₁ rfl
  have clearing : Moved (Within top) w₁ ((s.clearRemnants deps).run o w₁).2 :=
    trimmed.imp fun u hu => (hu led).within fun _ => Own.inside
  unfold fetchArchive
  rw [run_bind_of_ok done]
  rcases run₂ : (s.clearRemnants deps).run o w₁ with ⟨e | _, w₂⟩
  · rw [run₂] at clearing
    rw [run_bind_of_error run₂]
    exact ⟨clearing, fun _ h => by cases h⟩
  rw [run₂] at trimmed clearing
  rw [run_bind_of_ok run₂]
  have led₂ : Led w₂.volume w₂.cwd deps top := trimmed.cwd ▸ trimmed.now.led led
  have cleared := clearRemnants_clears named upright run₂
  obtain ⟨writing, stores⟩ := run_download_cleared (o := o) named led₂ cleared
  have loading := writing.imp fun u hu => hu.within fun _ => Own.inside
  refine ⟨clearing.trans Within.trans loading, fun w₃ run₃ => ?_⟩
  obtain ⟨f, accepted, -, -, stored, straight⟩ := stores w₃ run₃
  have loaded := moves_download s.url (s.archivePath deps) s.sha256 o w₂ rfl
  rw [run₃] at loading loaded
  have cwd₃ : w₃.cwd = w₁.cwd := loading.cwd.trans clearing.cwd
  -- The path has led to the directory from the start, as neither step opens a way.
  have opens : Opens w₁.volume w₁.cwd deps top :=
    ((cwd₃ ▸ stored.opens : Opens w₃.volume w₁.cwd deps top).keep loaded.now).keep
      (trimmed.now led).2.poorer.keeps
  have there : w₂.volume.lookup top = some .dir :=
    (clearing.now top fun h => h.2 rfl).trans (upright.opens opens here)
  exact ⟨⟨straight there, (loading.now top fun h => h.2 rfl).trans there⟩, opens.usable usable,
    f, accepted, stored⟩

theorem madeAlong_made : Moved (MadeAlong w.cwd deps.ancestors) w (s.made deps o w) := by
  unfold made
  split
  · exact .refl (MadeAlong.refl _ _) w
  · exact madeAlong_ensureDir deps o w rfl

/-- An acquisition makes the directory with what is missing above it, and from then on changes
nothing outside it, except where the steps after the unpacking stray; and there it does. The same
holds of the unpacking of an archive into a directory. -/
theorem acquire_within_iff (s : Source) (deps : Path) (o : Outside) (w : World) (named : s.Named)
    (upright : Upright w.volume) (here : w.volume.lookup w.cwd = some .dir) (usable : Usable w.cwd) :
    Moved (MadeAlong w.cwd deps.ancestors) w (s.made deps o w) ∧
      (∀ top, Led (s.made deps o w).volume w.cwd deps top →
        (Moved (Within top) (s.made deps o w) ((s.acquire deps).run o w).2 ↔
          ∀ w₁ w₂, s.isExtracted deps w.volume w.cwd = false →
            (s.fetchArchive deps).run o w = (.ok (), w₁) →
            (extract (s.archivePath deps) deps).run o w₁ = (.ok (), w₂) →
              ¬ s.Strays deps (s.archivePath deps) top o w₂)) ∧
      ∀ archive top, Opens w.volume w.cwd deps top →
        (Moved (Within top) w ((s.unpack deps archive).run o w).2 ↔ ∀ w₁,
          (extract archive deps).run o w = (.ok (), w₁) → ¬ s.Strays deps archive top o w₁) := by
  refine ⟨madeAlong_made, fun top led => ?_, fun archive top opens => ?_⟩
  · by_cases seen : s.isExtracted deps w.volume w.cwd = true
    · have same : s.made deps o w = w := by simp [made, seen]
      rw [same, run_acquire_cached seen]
      constructor
      · intro _ _ _ unseen
        rw [seen] at unseen
        cases unseen
      · exact fun _ => .refl (Within.refl top) w
    have unseen : s.isExtracted deps w.volume w.cwd = false := by simpa using seen
    have same : s.made deps o w = ((ensureDir deps).run o w).2 := by simp [made, unseen]
    rw [same] at led ⊢
    have straight := (upright_ensureDir deps o w rfl).now ⟨upright, here⟩
    have cwd₁ := (madeAlong_ensureDir deps o w rfl).cwd
    rw [run_acquire unseen]
    rcases run₁ : (ensureDir deps).run o w with ⟨x | _, w₁⟩
    · have failed : (s.fetchArchive deps).run o w = (.error (.io x), w₁) :=
        run_bind_of_error (run_mapError_error.2 ⟨x, rfl, run₁⟩)
      rw [run_bind_of_error failed]
      constructor
      · intro _ _ _ _ fetched
        rw [failed] at fetched
        cases fetched
      · exact fun _ => .refl (Within.refl top) w₁
    rw [run₁] at led straight cwd₁
    obtain ⟨fetching, after⟩ := fetchArchive_within (o := o) named run₁ straight.1
      (cwd₁.symm ▸ straight.2) (cwd₁.symm ▸ usable) (cwd₁.symm ▸ led)
    rcases run₂ : (s.fetchArchive deps).run o w with ⟨e | _, w₂⟩
    · rw [run₂] at fetching
      rw [run_bind_of_error run₂]
      constructor
      · intro _ _ _ _ fetched
        cases fetched
      · exact fun _ => fetching
    rw [run₂] at fetching
    obtain ⟨ground, fits, _, -, stored⟩ := after w₂ run₂
    have opens := stored.opens
    have unpacking : Moved (Within top) w₂ ((s.unpack deps (s.archivePath deps)).run o w₂).2 ↔ _ :=
      unpack_within_iff named ground fits opens
    have last : ((do
        s.fetchArchive deps
        s.unpack deps (s.archivePath deps)
        return Acquired.downloaded).run o w).2 =
          ((s.unpack deps (s.archivePath deps)).run o w₂).2 := by
      rw [run_bind_of_ok run₂, run_bind]
      rcases (s.unpack deps (s.archivePath deps)).run o w₂ with ⟨e | _, w₃⟩ <;> rfl
    rw [last]
    constructor
    · rintro moved _ w₃ - ⟨rfl⟩ run₃
      have extracted : Moved (Within top) w₂ ((extract (s.archivePath deps) deps).run o w₂).2 :=
        extract_within ground fits opens
      have passed : Moved (fun _ _ => True) w₂ ((s.unpack deps (s.archivePath deps)).run o w₂).2 :=
        Moved.bind (fun _ _ _ _ _ => trivial) (extracted.imp fun _ _ => trivial)
          fun _ _ _ => moved_mapError _ passed_settle
      exact unpacking.1 (moved.within_after fetching passed) w₃ run₃
    · intro safe
      exact fetching.trans Within.trans (unpacking.2 fun w₃ run₃ => safe w₂ w₃ unseen rfl run₃)
  · exact unpack_within_iff named ⟨upright, upright.opens opens here⟩ (opens.usable usable) opens

section Linked

/-- A link for the tree of the source, to a directory outside. -/
def linked : Archive :=
  ⟨[⟨ofText "demo-0.1.0", .symlink (some (ofText "/outside")), none⟩], true⟩

def linkedOutside : Outside := { crowdedOutside with archive := fun _ => linked }

def twoDirs : World :=
  ⟨⟨⟨[([ofText "deps"], .dir), ([ofText "outside"], .dir)]⟩, [], Path.ofText "/"⟩, [], [], []⟩

def outsideMarker : Location := [ofText markerName, ofText "outside"]

/-- An acquisition marks a directory that it has nothing to do with. -/
theorem linked_acquire_strays :
    demo.Named ∧ ¬ Inside outsideMarker [ofText "deps"] ∧
      let after := (demo.acquire "/deps").run linkedOutside twoDirs
      after.1.isOk = true ∧ twoDirs.volume.lookup outsideMarker = none ∧
        after.2.volume.lookup outsideMarker =
          some (.file ⟨ofText markerText, plainMode, none⟩) := by
  refine ⟨⟨by decide, by decide⟩, by decide, ?_⟩
  decide +kernel

theorem acquire_within_iff_linked :
    demo.Named ∧ Upright twoDirs.volume ∧ twoDirs.volume.lookup twoDirs.cwd = some .dir ∧
      Usable twoDirs.cwd ∧ Opens twoDirs.volume twoDirs.cwd "/deps" [ofText "deps"] ∧
      ∃ w, demo.Strays "/deps" (demo.archivePath "/deps") [ofText "deps"] linkedOutside w := by
  have named : demo.Named := ⟨by decide, by decide⟩
  have upright : Upright twoDirs.volume := upright_of_entries (by decide)
  have usable : Usable twoDirs.cwd := fun s hs => by cases hs
  have opens : ∀ v, v.lookup [ofText "deps"] = some .dir →
      Opens v [] (Path.ofText "/deps") [ofText "deps"] := by
    intro v hv
    refine ⟨0, by decide, ?_⟩
    have parts : (Path.ofText "/deps").segments = [ofText "deps"] := by decide
    rw [parts]
    exact .enter ⟨by decide, by decide, by decide⟩ hv .done
  refine ⟨named, upright, rfl, usable, opens _ (by decide), ?_⟩
  obtain ⟨-, acquired, -⟩ :=
    acquire_within_iff demo "/deps" linkedOutside twoDirs named upright rfl usable
  have led : Led (demo.made "/deps" linkedOutside twoDirs).volume twoDirs.cwd "/deps" [ofText "deps"] :=
    (opens _ (by decide +kernel)).led
  refine Classical.byContradiction fun safe => ?_
  have moved := (acquired _ led).2 fun _ w _ _ _ strays => safe ⟨w, strays⟩
  have same := moved.now outsideMarker (by decide)
  revert same
  decide +kernel

end Linked

end Source
end PinnedDeps
