import PinnedDeps.Proofs.Library.Reproducing

/-!
Installing artifacts. One copy after another replaces what stands in its place and leaves everything
else alone, up to the end or to the first that fails; and a second installation finds all as it is.
-/
namespace PinnedDeps

open PinnedDeps.Action Volume
open Bytes (ofText)

variable {o : Outside} {w w' w₁ : World} {v u : Volume} {cwd l : Location} {x : Entry}

namespace Copy

variable {j k : Copy} {cs done : List Copy}

/-- The copies do not get in each other's way: no directory that is copied from is one that is copied
to or lies in one, and the ways to all of them part at their ends. -/
structure Arranged (cs : List Copy) (cwd : Location) : Prop where
  named : ∀ j ∈ cs, IsName (ofText j.name)
  once : (cs.map Copy.name).Nodup
  apart : ∀ j ∈ cs, ∀ k ∈ cs, j.src.goal cwd ≠ k.dst.goal cwd
  outside : ∀ j ∈ cs, ∀ k ∈ cs, ¬ Inside (j.src.goal cwd) (k.dst.goal cwd)
  beside : ∀ j ∈ cs, ∀ k ∈ cs, ∀ l ∈ k.src.trail cwd, l ∈ j.src.trail cwd ∨ l = k.src.goal cwd

/-- The directories to copy to are there, and no link stands on the way to those to copy from. -/
structure Ready (cs : List Copy) (cwd : Location) (v : Volume) : Prop where
  clear : ∀ j ∈ cs, Unlinked (j.src.trail cwd) v
  there : ∀ j ∈ cs, Direct v cwd j.dst

/-- Each of the copies has been made, and nothing else has changed. -/
structure Mirrored (cs : List Copy) (cwd : Location) (v u : Volume) : Prop where
  copied : ∀ j ∈ cs, ∃ x, j.Fits cwd v x ∧ u.lookup (j.place cwd) = some x.copied
  rest : ∀ l, (∀ j ∈ cs, l ≠ j.place cwd) → u.lookup l = v.lookup l

theorem Arranged.sublist (h : Arranged cs cwd) (part : done.Sublist cs) : Arranged done cwd where
  named j hj := h.named j (part.subset hj)
  once := h.once.sublist (part.map _)
  apart j hj k hk := h.apart j (part.subset hj) k (part.subset hk)
  outside j hj k hk := h.outside j (part.subset hj) k (part.subset hk)
  beside j hj k hk := h.beside j (part.subset hj) k (part.subset hk)

theorem place_ne (h : j.name ≠ k.name) : j.place cwd ≠ k.place cwd :=
  fun e => h (Bytes.ofText_inj.1 (List.cons.inj e).1)

theorem Arranged.origin_ne (h : Arranged cs cwd) (hj : j ∈ cs) (hk : k ∈ cs) :
    j.origin cwd ≠ k.place cwd := fun e => h.apart j hj k hk (List.cons.inj e).2

/-- In a row of copies, those that come later have other places. -/
theorem Arranged.place_ne {later : List Copy} (h : Arranged (done ++ j :: later) cwd) (hk : k ∈ done) :
    j.place cwd ≠ k.place cwd := by
  refine Copy.place_ne fun same => ?_
  have once := h.once
  rw [List.map_append, List.nodup_append] at once
  exact once.2.2 k.name (List.mem_map_of_mem hk) j.name (by simp) same.symm

theorem Done.dirs_back (h : j.Done cwd x v u) (notDir : x ≠ .dir) : Dirs u v := by
  intro l hl
  rw [h l] at hl
  split at hl
  · exact absurd (Option.some.inj hl) (Entry.copied_ne_dir notDir)
  · exact hl

/-- A copy does not spoil the way to what is to be copied after it. -/
theorem Ready.next (h : Ready (j :: cs) cwd v) (arranged : Arranged (j :: cs) cwd)
    (fits : j.Fits cwd v x) (made : j.Done cwd x v u) : Ready cs cwd u := by
  refine ⟨fun k hk l hl t ht => ?_, fun k hk => (h.there k (by simp [hk])).keep (made.dirs fits.free)⟩
  rw [made l] at ht
  split at ht
  · rename_i here
    rcases arranged.beside j (by simp) k (by simp [hk]) l hl with before | last
    · exact fits.free (here ▸ fits.src.on_trail before)
    · refine arranged.outside k (by simp [hk]) j (by simp) ?_
      rw [← last, here]
      exact inside_cons _ _
  · exact h.clear k (by simp [hk]) l hl t ht

theorem Mirrored.nil (cwd : Location) (v : Volume) : Mirrored [] cwd v v :=
  ⟨by simp, fun _ _ => rfl⟩

theorem Mirrored.cons {y : Volume} (h : Mirrored cs cwd u y) (arranged : Arranged (j :: cs) cwd)
    (fits : j.Fits cwd v x) (made : j.Done cwd x v u) : Mirrored (j :: cs) cwd v y := by
  have fresh : ∀ k ∈ cs, j.name ≠ k.name := fun k hk same =>
    (List.nodup_cons.1 arranged.once).1 (same ▸ List.mem_map_of_mem hk)
  refine ⟨fun k hk => ?_, fun l hl => ?_⟩
  · rcases List.mem_cons.1 hk with rfl | later
    · refine ⟨x, fits, ?_⟩
      rw [h.rest _ fun i hi => place_ne (fresh i hi), made, if_pos rfl]
    · obtain ⟨z, hz, there⟩ := h.copied k later
      refine ⟨z, hz.congr (made.dirs_back fits.notDir) ?_ ?_, there⟩
      · rw [made, if_neg (arranged.origin_ne hk (by simp))]
      · have free := hz.free
        rwa [made, if_neg (place_ne (fresh k later)).symm] at free
  · rw [h.rest l fun k hk => hl k (by simp [hk]), made, if_neg (hl j (by simp))]

theorem Mirrored.dirs (h : Mirrored cs cwd v u) : Dirs v u := by
  intro l hl
  by_cases place : ∃ j ∈ cs, l = j.place cwd
  · obtain ⟨j, hj, rfl⟩ := place
    obtain ⟨x, fits, -⟩ := h.copied j hj
    exact absurd hl fits.free
  · rw [h.rest l fun j hj e => place ⟨j, hj, e⟩, hl]

/-- What fits before some copies have been made fits afterwards, if they have another place. -/
theorem Mirrored.fits (h : Mirrored cs cwd v u) (origin : ∀ k ∈ cs, j.origin cwd ≠ k.place cwd)
    (fits : j.Fits cwd v x) (free : u.lookup (j.place cwd) ≠ some .dir) : j.Fits cwd u x :=
  fits.congr h.dirs (h.rest _ origin) free

/-- Copies that have been made can be made again. -/
theorem Mirrored.fits_again (h : Mirrored cs cwd v u) (arranged : Arranged cs cwd) (hj : j ∈ cs) :
    ∃ x, j.Fits cwd u x := by
  obtain ⟨x, fits, there⟩ := h.copied j hj
  refine ⟨x, h.fits (fun k hk => arranged.origin_ne hj hk) fits ?_⟩
  rw [there]
  exact fun e => Entry.copied_ne_dir fits.notDir (Option.some.inj e)

/-- Copies that are made again change nothing. -/
theorem Mirrored.again {y : Volume} (h : Mirrored cs cwd v u) (g : Mirrored cs cwd u y)
    (arranged : Arranged cs cwd) (l : Location) : y.lookup l = u.lookup l := by
  by_cases place : ∃ j ∈ cs, l = j.place cwd
  · obtain ⟨j, hj, rfl⟩ := place
    obtain ⟨x, fits, there⟩ := h.copied j hj
    obtain ⟨z, fits', there'⟩ := g.copied j hj
    have same := fits'.seen
    rw [h.rest _ fun k hk => arranged.origin_ne hj hk, fits.seen] at same
    cases same
    rw [there, there']
  · exact g.rest l fun j hj e => place ⟨j, hj, e⟩

/-- The copies are made in a row, all of them or up to one that fails. -/
theorem run_makes (arranged : Arranged cs w.cwd) (ready : Ready cs w.cwd w.volume) :
    ∃ done rest w₁, cs = done ++ rest ∧ w₁.cwd = w.cwd ∧ Mirrored done w.cwd w.volume w₁.volume ∧
      (rest = [] ∧ (cs.forM make).run o w = (.ok (), w₁) ∨
        ∃ j later e w', rest = j :: later ∧ (cs.forM make).run o w = (.error e, w') ∧
          j.make.run o w₁ = (.error e, w')) := by
  induction cs generalizing w with
  | nil => exact ⟨[], [], w, rfl, rfl, .nil _ _, .inl ⟨rfl, rfl⟩⟩
  | cons j cs ih =>
    have named := arranged.named j (by simp)
    have apart := arranged.apart j (by simp) j (by simp)
    rw [forM_cons]
    rcases first : j.make.run o w with ⟨e | _, w₁⟩
    · exact ⟨[], j :: cs, w, rfl, rfl, .nil _ _, .inr ⟨j, cs, e, w₁, rfl, run_bind_of_error first, first⟩⟩
    · obtain ⟨x, fits⟩ := fits_of_make named apart (ready.clear j (by simp)) (ready.there j (by simp)) first
      obtain ⟨w₂, again, cwd, made⟩ := fits.run_make (o := o) named apart
      rw [first] at again
      cases again
      have next := ready.next arranged fits made
      rw [← cwd] at next
      obtain ⟨done, rest, w₂, rfl, cwd₂, mirrored, ended⟩ := ih
        (cwd ▸ arranged.sublist (List.sublist_cons_self j cs)) next
      rw [cwd] at mirrored
      have front : Arranged (j :: done) w.cwd :=
        arranged.sublist ((List.sublist_append_left done rest).cons_cons j)
      refine ⟨j :: done, rest, w₂, rfl, cwd₂.trans cwd, mirrored.cons front fits made, ?_⟩
      rw [run_bind_of_ok first]
      exact ended

theorem ready_of_fits (fits : ∀ j ∈ cs, ∃ x, j.Fits cwd v x) : Ready cs cwd v := by
  refine ⟨fun j hj l hl t ht => ?_, fun j hj => ?_⟩
  · obtain ⟨x, fits⟩ := fits j hj
    rw [fits.src.on_trail hl] at ht
    cases ht
  · obtain ⟨x, fits⟩ := fits j hj
    exact fits.dst

/-- Copies that all fit are all made. -/
theorem run_makes_of_fits (arranged : Arranged cs w.cwd) (fits : ∀ j ∈ cs, ∃ x, j.Fits w.cwd w.volume x) :
    ∃ w', (cs.forM make).run o w = (.ok (), w') ∧ w'.cwd = w.cwd ∧
      Mirrored cs w.cwd w.volume w'.volume := by
  obtain ⟨done, rest, w₁, rfl, cwd, mirrored, ⟨rfl, run⟩ | ⟨j, later, e, w', rfl, -, failed⟩⟩ :=
    run_makes (o := o) arranged (ready_of_fits fits)
  · rw [List.append_nil] at *
    exact ⟨w₁, run, cwd, mirrored⟩
  · have hj : j ∈ done ++ j :: later := by simp
    obtain ⟨x, fits⟩ := fits j hj
    have still : j.Fits w₁.cwd w₁.volume x := by
      rw [cwd]
      refine mirrored.fits (fun k hk => arranged.origin_ne hj (by simp [hk])) fits ?_
      rw [mirrored.rest _ fun k hk => arranged.place_ne hk]
      exact fits.free
    obtain ⟨w₂, made, -⟩ := still.run_make (o := o) (arranged.named j hj)
      (cwd ▸ arranged.apart j hj j hj)
    rw [failed] at made
    cases made

end Copy

variable {a : Artifacts} {pre p : Path} {lay : Layout}

/-- The places on the ways to the directories of an installation. -/
def Layout.trails (l : Layout) (cwd : Location) : List Location :=
  l.libDir.trail cwd ++ l.binDir.trail cwd

namespace Artifacts

/-- Where the artifacts lie in the prefix. -/
def sources (a : Artifacts) (pre : Path) : List Path :=
  a.lib.map (fun n : String => pre / "lib" / n) ++ a.bin.map (fun n : String => pre / "bin" / n)

def copies (a : Artifacts) (pre : Path) (l : Layout) : List Copy :=
  a.lib.map (⟨pre / "lib", l.libDir, ·⟩) ++ a.bin.map (⟨pre / "bin", l.binDir, ·⟩)

theorem copies_sources (a : Artifacts) (pre : Path) (l : Layout) :
    (a.copies pre l).map Copy.source = a.sources pre := by
  simp [copies, sources, Copy.source, Function.comp_def]

theorem copies_targets (a : Artifacts) (pre : Path) (l : Layout) :
    (a.copies pre l).map Copy.target = a.paths l := by
  simp [copies, paths, Copy.target, Function.comp_def]

def makeDirs (l : Layout) : Action IoError Unit := do
  ensureDir l.libDir
  ensureDir l.binDir

theorem copyArtifacts_eq (src dst : Path) (names : List String) :
    copyArtifacts src dst names = (names.map (⟨src, dst, ·⟩)).forM Copy.make := by
  unfold copyArtifacts
  induction names with
  | nil => rfl
  | cons n names ih => rw [List.map_cons, forM_cons, forM_cons, ih]; rfl

/-- The directories are made first, and then all is copied in a row. -/
theorem installFrom_eq (a : Artifacts) (pre : Path) (l : Layout) : a.installFrom pre l =
    mapError .io (makeDirs l) >>= fun _ => (a.copies pre l).forM Copy.make := by
  unfold installFrom copies
  rw [forM_append, copyArtifacts_eq, copyArtifacts_eq]
  rfl

/-- The names are plain and each is listed once. The directories do not lie in each other, nothing is
copied to where it is copied from, and no link stands on the way to any of them. -/
structure Separate (a : Artifacts) (pre : Path) (lay : Layout) (w : World) : Prop where
  named : ∀ n ∈ a.lib ++ a.bin, IsName (ofText n)
  once : (a.lib ++ a.bin).Nodup
  unlinked : ∀ p ∈ [pre / "lib", pre / "bin", lay.libDir, lay.binDir],
    Unlinked (p.trail w.cwd) w.volume
  outside : ∀ p ∈ [pre / "lib", pre / "bin", lay.libDir, lay.binDir],
    ∀ q ∈ [pre / "lib", pre / "bin", lay.libDir, lay.binDir], ¬ Inside (p.goal w.cwd) (q.goal w.cwd)
  apart : ∀ p ∈ [pre / "lib", pre / "bin"], ∀ q ∈ [lay.libDir, lay.binDir],
    p.goal w.cwd ≠ q.goal w.cwd

instance (a : Artifacts) (pre : Path) (lay : Layout) (w : World) : Decidable (a.Separate pre lay w) :=
  decidable_of_iff (_ ∧ _ ∧ _ ∧ _ ∧ _)
    ⟨fun ⟨named, once, unlinked, outside, apart⟩ => ⟨named, once, unlinked, outside, apart⟩,
      fun ⟨named, once, unlinked, outside, apart⟩ => ⟨named, once, unlinked, outside, apart⟩⟩

/-- Beside the given paths all is as before, but for new directories on the ways. -/
def Untouched (lay : Layout) (cwd : Location) (ps : List Path) (v u : Volume) : Prop :=
  ∀ l, l ∉ ps.map (Path.goal · cwd) → LaidAt (· ∈ lay.trails cwd) v u l

/-- The entry at the first path, which is what it was before, has been copied to the second. -/
def Copied (w w' : World) (src dst : Path) : Prop :=
  ∃ x, x ≠ .dir ∧ w.volume.lookup (src.goal w.cwd) = some x ∧
    w'.volume.entryAt w'.cwd src = .ok (src.goal w.cwd, x) ∧
    w'.volume.entryAt w'.cwd dst = .ok (dst.goal w.cwd, x.copied)

/-- The artifacts have been copied, and neither the prefix nor anything else has changed, not even
what a replaced link led to. -/
structure Mirrors (a : Artifacts) (pre : Path) (lay : Layout) (w w' : World) : Prop where
  copied : ∀ p ∈ (a.sources pre).zip (a.paths lay), Copied w w' p.1 p.2
  rest : Untouched lay w.cwd (a.paths lay) w.volume w'.volume
  prefixes : ∀ p ∈ [pre / "lib", pre / "bin"], ∀ l x, Below l (p.goal w.cwd) →
    w.volume.lookup l = some x → w'.volume.lookup l = some x
  targets : ∀ p ∈ a.paths lay, ∀ l x, w.volume.stat w.cwd p = .ok (l, x) →
    l ∉ (a.paths lay).map (Path.goal · w.cwd) → w'.volume.lookup l = some x

/-- What is left by an installation that has failed. The directories could not be made; or the first
artifacts have been copied and the next could not be, which has at most taken away what stood in its place. -/
inductive Halted (a : Artifacts) (pre : Path) (lay : Layout) (w w' : World) : BuildError → Prop
  | dirs {cause} : Untouched lay w.cwd [] w.volume w'.volume → Halted a pre lay w w' (.io cause)
  | copy {done src dst later cause} :
      (a.sources pre).zip (a.paths lay) = done ++ (src, dst) :: later →
      (∀ p ∈ done, Copied w w' p.1 p.2) →
      Untouched lay w.cwd (dst :: done.map Prod.snd) w.volume w'.volume →
      LaidAt (· ∈ lay.trails w.cwd) w.volume w'.volume (dst.goal w.cwd) ∨
        w'.volume.lookup (dst.goal w.cwd) = none →
      Halted a pre lay w w' (.copy src dst cause)

section Dirs

theorem moves_makeDirs (lay : Layout) : Moves cwd (fun v u => Unlinked (lay.trails cwd) v →
    Laid (· ∈ lay.trails cwd) v u) (makeDirs lay) := by
  have each : ∀ p ∈ [lay.libDir, lay.binDir], Moves cwd (fun v u => Unlinked (lay.trails cwd) v →
      Laid (· ∈ lay.trails cwd) v u) (ensureDir p) := by
    intro p hp
    have part : p.trail cwd ⊆ lay.trails cwd := by
      unfold Layout.trails
      obtain rfl | rfl : p = lay.libDir ∨ p = lay.binDir := by simpa using hp
      · exact List.subset_append_left _ _
      · exact List.subset_append_right _ _
    refine (moves_ensureDir_laid p).imp fun v u laid clear => ?_
    exact (laid fun l hl => clear l (part hl)).mono fun l hl => part hl
  refine moves_bind (fun u v x h g clear => ?_) (each _ (by simp)) fun _ => each _ (by simp)
  exact (h clear).trans _ _ _ (g (clear.laid (h clear)))

/-- Directories that have been made are there, and are not made again while none is lost. -/
theorem makeDirs_ok (clear : Unlinked (lay.trails w.cwd) w.volume)
    (run : (makeDirs lay).run o w = (.ok (), w₁)) :
    (∀ p ∈ [lay.libDir, lay.binDir], Direct w₁.volume w.cwd p) ∧
      ∀ (o : Outside) u, u.cwd = w.cwd → Dirs w₁.volume u.volume → (makeDirs lay).run o u = (.ok (), u) := by
  obtain ⟨_, w₂, lib, bin⟩ := run_bind_ok.1 run
  obtain ⟨cwd, laid, direct, again⟩ := ensureDir_direct (fun l hl => clear l (by simp [Layout.trails, hl])) lib
  have clear₂ : Unlinked (lay.binDir.trail w₂.cwd) w₂.volume := by
    rw [cwd]
    exact Unlinked.laid (fun l hl => clear l (by simp [Layout.trails, hl])) laid
  obtain ⟨-, laid₂, direct₂, again₂⟩ := ensureDir_direct clear₂ bin
  rw [cwd] at direct₂ again₂
  have kept : Dirs w₂.volume w₁.volume := fun l hl => laid₂.lookup hl
  refine ⟨fun p hp => ?_, fun o u hu dirs => ?_⟩
  · obtain rfl | rfl : p = lay.libDir ∨ p = lay.binDir := by simpa using hp
    · exact direct.keep kept
    · exact direct₂
  · unfold makeDirs
    rw [run_bind_of_ok (again o u hu fun l hl => dirs l (kept l hl))]
    exact again₂ o u hu dirs

end Dirs

theorem mem_copies {j : Copy} (h : j ∈ a.copies pre lay) :
    j.name ∈ a.lib ++ a.bin ∧ j.src ∈ [pre / "lib", pre / "bin"] ∧ j.dst ∈ [lay.libDir, lay.binDir] := by
  rcases List.mem_append.1 h with h | h
  · obtain ⟨n, hn, rfl⟩ := List.mem_map.1 h
    exact ⟨by simp [hn], by simp, by simp⟩
  · obtain ⟨n, hn, rfl⟩ := List.mem_map.1 h
    exact ⟨by simp [hn], by simp, by simp⟩

theorem zip_copies (a : Artifacts) (pre : Path) (lay : Layout) :
    (a.sources pre).zip (a.paths lay) = (a.copies pre lay).map fun j => (j.source, j.target) := by
  rw [← copies_sources a pre lay, ← copies_targets, List.zip_map']

namespace Separate

variable (h : a.Separate pre lay w)
include h

theorem arranged : Copy.Arranged (a.copies pre lay) w.cwd where
  named j hj := h.named _ (mem_copies hj).1
  once := by
    have names : (a.copies pre lay).map Copy.name = a.lib ++ a.bin := by
      simp [copies, Function.comp_def]
    rw [names]
    exact h.once
  apart j hj k hk := h.apart _ (mem_copies hj).2.1 _ (mem_copies hk).2.2
  outside j hj k hk := h.outside _ (List.mem_append_left _ (mem_copies hj).2.1) _
    (List.mem_append_right [pre / "lib", pre / "bin"] (mem_copies hk).2.2)
  beside j hj k hk := by
    have above : ∀ p ∈ [pre / "lib", pre / "bin"], p.trail w.cwd = pre.trail w.cwd ++ [p.goal w.cwd] := by
      have split : ∀ {n : String}, IsName (ofText n) →
          (pre / n).trail w.cwd = pre.trail w.cwd ++ [(pre / n).goal w.cwd] := by
        intro n hn
        rw [Path.trail_div hn, Path.goal_div hn]
      intro p hp
      obtain rfl | rfl : p = pre / "lib" ∨ p = pre / "bin" := by simpa using hp
      · exact split (by decide)
      · exact split (by decide)
    intro l hl
    rw [above _ (mem_copies hk).2.1] at hl
    rw [above _ (mem_copies hj).2.1]
    rcases List.mem_append.1 hl with hl | hl
    · exact .inl (List.mem_append_left _ hl)
    · exact .inr (List.mem_singleton.1 hl)

theorem unlinked_trails : Unlinked (lay.trails w.cwd) w.volume := by
  intro l hl
  rcases List.mem_append.1 hl with hl | hl
  · exact h.unlinked lay.libDir (by simp) l hl
  · exact h.unlinked lay.binDir (by simp) l hl

/-- An installation makes its directories and then the copies, as far as it comes. -/
theorem run_installFrom : ∃ w₁, w₁.cwd = w.cwd ∧ Laid (· ∈ lay.trails w.cwd) w.volume w₁.volume ∧
    ((∃ cause, (a.installFrom pre lay).run o w = (.error (.io cause), w₁)) ∨
      (∀ (o : Outside) u, u.cwd = w.cwd → Dirs w₁.volume u.volume → (makeDirs lay).run o u = (.ok (), u)) ∧
      (a.installFrom pre lay).run o w = ((a.copies pre lay).forM Copy.make).run o w₁ ∧
      Copy.Ready (a.copies pre lay) w.cwd w₁.volume) := by
  have moved := moves_makeDirs lay o w rfl
  have clear := h.unlinked_trails
  rw [installFrom_eq]
  rcases run : (makeDirs lay).run o w with ⟨cause | _, w₁⟩
  · rw [run] at moved
    have failed : (mapError BuildError.io (makeDirs lay)).run o w = (.error (.io cause), w₁) :=
      run_mapError_error.2 ⟨cause, rfl, run⟩
    exact ⟨w₁, moved.cwd, moved.now clear, .inl ⟨cause, run_bind_of_error failed⟩⟩
  · rw [run] at moved
    have laid := moved.now clear
    obtain ⟨direct, again⟩ := makeDirs_ok clear run
    refine ⟨w₁, moved.cwd, laid, .inr ⟨again, ?_, fun j hj => ?_, fun j hj => ?_⟩⟩
    · exact run_bind_of_ok (run_mapError_ok.2 run)
    · exact (h.unlinked _ (List.mem_append_left _ (mem_copies hj).2.1)).laid laid
    · exact direct _ (mem_copies hj).2.2

/-- No artifact is copied into the prefix. -/
theorem not_below {j : Copy} (hj : j ∈ a.copies pre lay) (hp : p ∈ [pre / "lib", pre / "bin"]) :
    ¬ Below (j.place w.cwd) (p.goal w.cwd) := by
  have hd := (mem_copies hj).2.2
  intro below
  rcases below_cons_iff.1 below with same | below
  · refine h.outside p (List.mem_append_left _ hp) j.dst (List.mem_append_right [pre / "lib", pre / "bin"] hd) ?_
    rw [same]
    exact inside_cons _ _
  · refine h.outside j.dst (List.mem_append_right [pre / "lib", pre / "bin"] hd) p (List.mem_append_left _ hp)
      ⟨below, fun same => ?_⟩
    exact h.apart p hp j.dst hd same.symm

theorem copied {j : Copy} (hj : j ∈ a.copies pre lay) (cwd : w'.cwd = w.cwd)
    (laid : LaidAt (· ∈ lay.trails w.cwd) w.volume v (j.origin w.cwd)) (fits : j.Fits w.cwd v x)
    (dirs : Dirs v w'.volume) (origin : w'.volume.lookup (j.origin w.cwd) = v.lookup (j.origin w.cwd))
    (place : w'.volume.lookup (j.place w.cwd) = some x.copied) : Copied w w' j.source j.target := by
  have named := h.named _ (mem_copies hj).1
  have free : w'.volume.lookup (j.place w.cwd) ≠ some .dir := by
    rw [place]
    exact fun e => Entry.copied_ne_dir fits.notDir (Option.some.inj e)
  have now := fits.congr dirs origin free
  refine ⟨x, fits.notDir, ?_, ?_, ?_⟩
  · rw [Copy.goal_source named]
    exact laid.before fits.seen fits.notDir
  · rw [Copy.goal_source named, cwd]
    exact now.entryAt named
  · rw [Copy.goal_target named, cwd]
    exact (entryAt_div named).2 ⟨now.usable.2, now.short, _, now.dst.opens, rfl, place⟩

theorem goals {cs : List Copy} (part : ∀ j ∈ cs, j ∈ a.copies pre lay) :
    (cs.map Copy.target).map (Path.goal · w.cwd) = cs.map (Copy.place · w.cwd) := by
  rw [List.map_map]
  exact List.map_congr_left fun j hj => Copy.goal_target (h.named _ (mem_copies (part j hj)).1) _

theorem untouched {cs : List Copy} (part : ∀ j ∈ cs, j ∈ a.copies pre lay)
    (laid : Laid (· ∈ lay.trails w.cwd) w.volume v)
    (rest : ∀ l, (∀ j ∈ cs, l ≠ j.place w.cwd) → u.lookup l = v.lookup l) :
    Untouched lay w.cwd (cs.map Copy.target) w.volume u := by
  intro l hl
  rw [h.goals part, List.mem_map] at hl
  exact (laid l).congr (rest l fun j hj same => hl ⟨j, hj, same.symm⟩)

theorem mirrors (laid : Laid (· ∈ lay.trails w.cwd) w.volume v) (cwd : w'.cwd = w.cwd)
    (made : Copy.Mirrored (a.copies pre lay) w.cwd v w'.volume) : a.Mirrors pre lay w w' := by
  have rest : Untouched lay w.cwd (a.paths lay) w.volume w'.volume :=
    copies_targets a pre lay ▸ h.untouched (fun _ hj => hj) laid made.rest
  refine ⟨fun p hp => ?_, rest, fun p hp l x below hx => ?_, fun p _ l x seen hl => ?_⟩
  · rw [zip_copies] at hp
    obtain ⟨j, hj, rfl⟩ := List.mem_map.1 hp
    obtain ⟨x, fits, there⟩ := made.copied j hj
    exact h.copied hj cwd (laid _) fits made.dirs
      (made.rest _ fun k hk => h.arranged.origin_ne hj hk) there
  · rw [made.rest l fun j hj same => h.not_below hj hp (same ▸ below)]
    exact laid.lookup hx
  · obtain ⟨L, -, -, hx⟩ := stat_ok.1 seen
    exact (rest l hl).lookup hx

/-- What has been installed can be installed once more, and then nothing is different. -/
theorem reinstalled
    (again : ∀ (o : Outside) u, u.cwd = w.cwd → Dirs v u.volume → (makeDirs lay).run o u = (.ok (), u))
    (cwd : w'.cwd = w.cwd) (made : Copy.Mirrored (a.copies pre lay) w.cwd v w'.volume) :
    ∃ u, (a.installFrom pre lay).run o w' = (.ok (), u) ∧ u.cwd = w.cwd ∧
      ∀ l, u.volume.lookup l = w'.volume.lookup l := by
  have arranged := h.arranged
  obtain ⟨u, run, cwd', made'⟩ := Copy.run_makes_of_fits (o := o) (w := w') (cwd ▸ arranged)
    fun j hj => cwd ▸ made.fits_again arranged hj
  refine ⟨u, ?_, cwd'.trans cwd, made.again (cwd ▸ made') arranged⟩
  rw [installFrom_eq, run_bind_of_ok (run_mapError_ok.2 (again o w' cwd made.dirs)), run]

theorem halted {done later : List Copy} {j : Copy} {w₂ : World} {e : BuildError}
    (laid : Laid (· ∈ lay.trails w.cwd) w.volume v) (ready : Copy.Ready (a.copies pre lay) w.cwd v)
    (split : a.copies pre lay = done ++ j :: later) (cwd : w₂.cwd = w.cwd)
    (made : Copy.Mirrored done w.cwd v w₂.volume) (failed : j.make.run o w₂ = (.error e, w')) :
    w'.cwd = w.cwd ∧ a.Halted pre lay w w' e := by
  have arranged := h.arranged
  have hj : j ∈ a.copies pre lay := by simp [split]
  have part : ∀ k ∈ done, k ∈ a.copies pre lay := fun k hk => by simp [split, hk]
  have named := h.named _ (mem_copies hj).1
  obtain ⟨⟨cause, rfl⟩, cwd', dirs, changed⟩ :=
    Copy.make_failed named (cwd ▸ (ready.there j hj).keep made.dirs) failed
  rw [cwd] at changed
  have still : ∀ l, l ≠ j.place w.cwd → w'.volume.lookup l = w₂.volume.lookup l :=
    fun l hl => (changed l).resolve_right fun gone => hl gone.1
  have parts : (a.sources pre).zip (a.paths lay) = (done.map fun k => (k.source, k.target)) ++
      (j.source, j.target) :: later.map fun k => (k.source, k.target) := by
    rw [zip_copies, split, List.map_append, List.map_cons]
  refine ⟨cwd'.trans cwd, .copy parts (fun p hp => ?_) ?_ ?_⟩
  · obtain ⟨k, hk, rfl⟩ := List.mem_map.1 hp
    obtain ⟨x, fits, there⟩ := made.copied k hk
    refine h.copied (part k hk) (cwd'.trans cwd) (laid _) fits (fun l hl => dirs l (made.dirs l hl)) ?_ ?_
    · rw [still _ (arranged.origin_ne (part k hk) hj)]
      exact made.rest _ fun i hi => arranged.origin_ne (part k hk) (part i hi)
    · rw [still _ ((split ▸ arranged).place_ne hk).symm, there]
  · have targets : j.target :: (done.map fun k => (k.source, k.target)).map Prod.snd =
        (j :: done).map Copy.target := by
      simp [Function.comp_def]
    rw [targets]
    refine h.untouched (List.forall_mem_cons.2 ⟨hj, part⟩) laid fun l hl => ?_
    rw [still l (hl j (by simp))]
    exact made.rest l fun k hk => hl k (by simp [hk])
  · rw [Copy.goal_target named]
    rcases changed (j.place w.cwd) with same | ⟨-, gone⟩
    · rw [made.rest _ fun k hk => (split ▸ arranged).place_ne hk] at same
      exact .inl ((laid _).congr same)
    · exact .inr gone

end Separate

/-- An installation that succeeds copies exactly the artifacts that are listed, and then installing
them again succeeds and changes nothing. One that fails stops at one artifact, or before the first. -/
theorem installFrom_mirrors (a : Artifacts) (pre : Path) (lay : Layout) (o : Outside) (w : World)
    (separate : a.Separate pre lay w) :
    let after := (a.installFrom pre lay).run o w
    after.2.cwd = w.cwd ∧
    (after.1 = .ok () → a.Mirrors pre lay w after.2 ∧
      ∀ o' : Outside, ∃ u, (a.installFrom pre lay).run o' after.2 = (.ok (), u) ∧ u.cwd = w.cwd ∧
        ∀ l, u.volume.lookup l = after.2.volume.lookup l) ∧
    ∀ e, after.1 = .error e → a.Halted pre lay w after.2 e := by
  obtain ⟨w₁, cwd, laid, ⟨cause, run⟩ | ⟨again, run, ready⟩⟩ := separate.run_installFrom (o := o)
  · rw [run]
    refine ⟨cwd, nofun, fun e failed => ?_⟩
    cases failed
    exact .dirs fun l _ => laid l
  have arranged := separate.arranged
  rw [← cwd] at arranged ready
  obtain ⟨done, rest, w₂, split, cwd₂, made, ended⟩ := Copy.run_makes (o := o) arranged ready
  rw [cwd] at arranged ready made cwd₂
  rw [run]
  rcases ended with ⟨rfl, ran⟩ | ⟨j, later, e, w', rfl, ran, failed⟩
  · rw [List.append_nil] at split
    rw [ran]
    rw [← split] at made
    exact ⟨cwd₂, fun _ => ⟨separate.mirrors laid cwd₂ made, fun _ => separate.reinstalled again cwd₂ made⟩,
      nofun⟩
  · rw [ran]
    obtain ⟨cwd', halted⟩ := separate.halted laid ready split cwd₂ made failed
    refine ⟨cwd', nofun, fun _ failed => ?_⟩
    cases failed
    exact halted

section Sample

open Library

def few : Artifacts := ⟨["a", "b"], ["c"]⟩

/-- The second directory lies beside one that is still to be made. -/
def winding : Layout := ⟨"/i", "Lib", "x/../Bin"⟩

/-- A prefix with a file, a link to it and another file. Where the first is to be installed stands a link
to a file of another directory. -/
def staleLink : World := worldOf [("/p", .dir), ("/p/lib", .dir), ("/p/bin", .dir),
  ("/p/lib/a", .file ⟨ofText "new", 0o755, none⟩), ("/p/lib/b", linkTo "a"), ("/p/bin/c", text),
  ("/i", .dir), ("/i/Lib", .dir), ("/i/Lib/a", linkTo "/e/a"),
  ("/e", .dir), ("/e/a", .file ⟨ofText "old", 0o644, none⟩)]

theorem installFrom_mirrors_staleLink :
    let after := (few.installFrom "/p" winding).run quiet staleLink
    few.Separate "/p" winding staleLink ∧ after.1 = .ok () ∧ few.Mirrors "/p" winding staleLink after.2 := by
  intro after
  have separate : few.Separate "/p" winding staleLink := by decide +kernel
  have copied : after.1 = .ok () := ok_of_toOption (by decide +kernel)
  exact ⟨separate, copied, ((installFrom_mirrors few "/p" winding quiet staleLink separate).2.1 copied).1⟩

end Sample

end Artifacts
end PinnedDeps
