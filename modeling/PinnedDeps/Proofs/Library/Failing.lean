import PinnedDeps.Proofs.Library.Built
import PinnedDeps.Proofs.Library.Compiling
import PinnedDeps.Proofs.Source.Confinement

/-!
Builds that fail. Outside the directory of dependencies an artifact comes to be only by its own
copying, so a failed build is seen as built only if the artifacts it has not copied were there.
-/
namespace PinnedDeps

open Bytes (ofText)
open PinnedDeps.Action Volume

variable {o : Outside} {w w' : World} {lib : Library} {c : Config} {l top cwd : Location}
  {e : BuildError} {a : Artifacts} {pre : Path} {lay : Layout}

/-- The directory and the name of each artifact, in the order in which they are copied. -/
def Artifacts.spots (a : Artifacts) (l : Layout) : List (Path × String) :=
  a.lib.map (fun n => (l.libDir, n)) ++ a.bin.map (fun n => (l.binDir, n))

theorem Artifacts.paths_eq (a : Artifacts) (l : Layout) :
    a.paths l = (a.spots l).map fun s => s.1 / s.2 := by
  simp [paths, spots, Function.comp_def]

theorem Artifacts.spots_names (a : Artifacts) (l : Layout) :
    (a.spots l).map Prod.snd = a.lib ++ a.bin := by
  simp [spots, Function.comp_def]

/-- The artifacts that a failed build has not copied: all of them, or those from the one on whose
copying it has failed. -/
def Uncopied (e : BuildError) (paths rest : List Path) : Prop :=
  rest = paths ∨ ∃ done src p later cause, paths = done ++ rest ∧ rest = p :: later ∧
    e = .copy src p cause

theorem spares_ensureDir {p : Path} (h : ∀ n ∈ p.steps, l.head? ≠ some n) :
    Moves cwd (Spares l) (ensureDir p) :=
  (moves_ensureDir p).imp fun _ _ g => g.spares h

section Install

variable (hlib : ∀ n ∈ a.lib, IsName (ofText n)) (hbin : ∀ n ∈ a.bin, IsName (ofText n))
include hlib hbin

/-- An installation that fails has copied the first artifacts at most, and has put nothing under
any name but theirs. -/
theorem installFrom_failed (run : (a.installFrom pre lay).run o w = (.error e, w')) :
    ∃ done rest, a.spots lay = done ++ rest ∧ (done = [] ∨ ∃ src s later cause,
        rest = s :: later ∧ e = .copy src (s.1 / s.2) cause) ∧
      ∀ l, (∀ n ∈ lay.libDir.steps ++ lay.binDir.steps, l.head? ≠ some n) →
        (∀ s ∈ done, l.head? ≠ some (ofText s.2)) → Spares l w.volume w'.volume := by
  have made : ∀ {l r w₁}, (∀ n ∈ lay.libDir.steps ++ lay.binDir.steps, l.head? ≠ some n) →
      (mapError BuildError.io do
        ensureDir lay.libDir
        ensureDir lay.binDir).run o w = (r, w₁) → Spares l w.volume w₁.volume := by
    intro l r w₁ hl run
    have moved : Moved (Spares l) w ((do
        ensureDir lay.libDir
        ensureDir lay.binDir : Action IoError Unit).run o w).2 :=
      moves_bind Spares.trans (spares_ensureDir fun n hn => hl n (by simp [hn]))
        (fun _ => spares_ensureDir fun n hn => hl n (by simp [hn])) o w rfl
    rw [show w₁ = _ from (congrArg Prod.snd run).symm]
    exact moved.now
  unfold Artifacts.installFrom at run
  rcases run_bind_error.1 run with run | ⟨_, w₁, dirs, run⟩
  · exact ⟨[], a.spots lay, rfl, .inl rfl, fun l hl _ => made hl run⟩
  rcases run_bind_error.1 run with run | ⟨_, w₂, libs, bins⟩
  · obtain ⟨done, n, rest, cause, hd, rfl, spares⟩ := copyArtifacts_failed hlib run
    refine ⟨done.map fun n => (lay.libDir, n),
      (lay.libDir, n) :: rest.map (fun n => (lay.libDir, n)) ++ a.bin.map fun n => (lay.binDir, n),
      ?_, .inr ⟨_, _, _, cause, rfl, rfl⟩, fun l hl hdone => ?_⟩
    · simp [Artifacts.spots, hd]
    · refine (made hl dirs).trans _ _ _ (spares l fun m hm => ?_)
      exact hdone (lay.libDir, m) (List.mem_map.2 ⟨m, hm, rfl⟩)
  · obtain ⟨done, n, rest, cause, hd, rfl, spares⟩ := copyArtifacts_failed hbin bins
    refine ⟨a.lib.map (fun n => (lay.libDir, n)) ++ done.map fun n => (lay.binDir, n),
      (lay.binDir, n) :: rest.map fun n => (lay.binDir, n), ?_, .inr ⟨_, _, _, cause, rfl, rfl⟩,
      fun l hl hdone => ?_⟩
    · simp [Artifacts.spots, hd]
    · have copied : Spares l w₁.volume
          ((copyArtifacts (pre / "lib") lay.libDir a.lib).run o w₁).2.volume :=
        copyArtifacts_spare hlib fun m hm => hdone (lay.libDir, m) (by simp [hm])
      rw [libs] at copied
      refine ((made hl dirs).trans _ _ _ copied).trans _ _ _ (spares l fun m hm => ?_)
      exact hdone (lay.binDir, m) (by simp [hm])

end Install

namespace Library

def importAlias : String := "libz.dll.a"

/-- The name of a build directory. -/
def workName (lib : Library) (phase : Phase) : String :=
  let suffix := phase.mark ++ "build"
  s!"{lib.source.stem}.{suffix}"

theorem isName_work (lib : Library) (phase : Phase) : IsName (ofText (lib.workName phase)) := by
  cases lib <;> cases phase <;> decide

theorem named_source (lib : Library) : lib.source.Named := by
  cases lib <;> exact ⟨by decide, by decide⟩

/-- Every artifact has a name of its own, which is none of a build directory. -/
theorem artifacts_apart (lib : Library) (os : Os) :
    ((lib.artifacts os).lib ++ (lib.artifacts os).bin).Nodup ∧
      importAlias ∉ (lib.artifacts os).bin ∧
      ∀ n ∈ (lib.artifacts os).lib ++ (lib.artifacts os).bin, ∀ phase : Phase,
        n ≠ lib.workName phase := by
  refine ⟨?_, ?_, ?_⟩
  · cases lib <;> cases os <;> decide
  · cases lib <;> cases os <;> decide
  · intro n hn phase
    cases lib <;> cases os <;> cases phase <;> revert n <;> decide

/-- A place outside the directory of dependencies, with a name that the making of directories does
not use. -/
structure Aside (lib : Library) (c : Config) (top l : Location) : Prop where
  outside : ¬ Inside l top
  foreign : ∀ p ∈ [c.deps, c.layout.root, c.layout.libDir, c.layout.binDir], ∀ n ∈ p.steps,
    l.head? ≠ some n
  work : ∀ phase : Phase, l.head? ≠ some (ofText (lib.workName phase))

/-- The directories that a build makes first. -/
def makeRoots (c : Config) : Action IoError Unit := do
  ensureDir c.deps
  ensureDir c.layout.root

theorem moves_makeRoots {R : Volume → Volume → Prop} (ht : ∀ u v x, R u v → R v x → R u x)
    (h : ∀ p ∈ [c.deps, c.layout.root], Moves cwd R (ensureDir p)) : Moves cwd R (makeRoots c) :=
  moves_bind ht (h c.deps (by simp)) fun _ => h c.layout.root (by simp)

theorem spares_compile (aside : lib.Aside c top l)
    (children : ∀ cmd l v out, o.spawn cmd l v = .ok out → Within top v out.volume) (w : World) :
    Moved (Spares l) w ((lib.compile c).run o w).2 := by
  refine moved_compile lib c (Spares.refl l) Spares.trans
    (fun cmd k v out h => (children cmd k v out h).spares aside.outside) fun phase w _ => ?_
  refine spares_ensureDir (fun n hn => ?_) o w rfl
  rw [show phase.buildDir lib c.deps = c.deps / lib.workName phase from rfl,
    Path.steps_div c.deps (isName_work lib phase)] at hn
  rcases List.mem_append.1 hn with hn | hn
  · exact aside.foreign c.deps (by simp) n hn
  · rw [List.mem_singleton.1 hn]
    exact aside.work phase

theorem install_failed (run : (lib.install c).run o w = (.error e, w')) :
    ∃ done rest, (lib.artifacts c.targetOs).spots c.layout = done ++ rest ∧
      (done = [] ∨ ∃ src s later cause, rest = s :: later ∧ e = .copy src (s.1 / s.2) cause) ∧
      ∀ l, lib.Aside c top l → l.head? ≠ some (ofText importAlias) →
        (∀ s ∈ done, l.head? ≠ some (ofText s.2)) → Spares l w.volume w'.volume := by
  obtain ⟨hlib, hbin⟩ := isName_artifacts lib c.targetOs
  have aside : ∀ {l}, lib.Aside c top l →
      ∀ n ∈ c.layout.libDir.steps ++ c.layout.binDir.steps, l.head? ≠ some n := by
    intro l hl n hn
    rcases List.mem_append.1 hn with hn | hn
    · exact hl.foreign c.layout.libDir (by simp) n hn
    · exact hl.foreign c.layout.binDir (by simp) n hn
  have named : ∀ {l w}, l.head? ≠ some (ofText importAlias) → ∀ src p,
      Spares l w.volume ((copyArtifact src (p / importAlias)).run o w).2.volume :=
    fun hl src p => copyArtifact_spares (by decide) hl
  unfold install at run
  simp only at run
  split at run
  · rcases run_bind_error.1 run with run | ⟨_, w₁, copied, run⟩
    · refine ⟨[], _, rfl, .inl rfl, fun l _ hl _ => ?_⟩
      exact (copyArtifact_failed run).1.spares l
    · obtain ⟨done, rest, hs, herr, spares⟩ := installFrom_failed hlib hbin run
      refine ⟨done, rest, hs, herr, fun l hl ha hdone => ?_⟩
      have first := named (w := w) ha
        ((Phase.last lib c.target c.host.os).installDir lib c.deps / "lib" / "libzlib.dll.a")
        ((Phase.last lib c.target c.host.os).installDir lib c.deps / "lib")
      rw [show (copyArtifact _ (_ / importAlias)).run o w = _ from copied] at first
      exact first.trans _ _ _ (spares l (aside hl) hdone)
  · obtain ⟨done, rest, hs, herr, spares⟩ := installFrom_failed hlib hbin run
    exact ⟨done, rest, hs, herr, fun l hl _ hdone => spares l (aside hl) hdone⟩

/-- No directory that a build makes is named like an artifact, and the artifacts are not seen in the
directory of dependencies. -/
structure Apart (lib : Library) (c : Config) (top : Location) (w' : World) : Prop where
  foreign : ∀ p ∈ [c.deps, c.layout.root, c.layout.libDir, c.layout.binDir],
    ∀ n ∈ (lib.artifacts c.targetOs).lib ++ (lib.artifacts c.targetOs).bin, ofText n ∉ p.steps
  outside : ∀ p ∈ [c.layout.libDir, c.layout.binDir], ∀ d, Opens w'.volume w'.cwd p d →
    ¬ Below d top

theorem Apart.aside {p : Path} {n : String} {d : Location} (h : lib.Apart c top w')
    (hp : p ∈ [c.layout.libDir, c.layout.binDir])
    (hn : n ∈ (lib.artifacts c.targetOs).lib ++ (lib.artifacts c.targetOs).bin)
    (opens : Opens w'.volume w'.cwd p d) : lib.Aside c top (ofText n :: d) where
  outside hi := by
    rcases below_cons_iff.1 hi.1 with e | e
    · exact hi.2 e.symm
    · exact h.outside p hp d opens e
  foreign q hq m hm e := by
    obtain rfl : ofText n = m := Option.some.inj e
    exact h.foreign q hq n hn hm
  work phase e :=
    (artifacts_apart lib c.targetOs).2.2 n hn phase (Bytes.ofText_inj.1 (Option.some.inj e))

theorem spares_makeRoots (aside : lib.Aside c top l) : Moves cwd (Spares l) (makeRoots c) := by
  refine moves_makeRoots Spares.trans fun p hp => spares_ensureDir (aside.foreign p ?_)
  rcases List.mem_cons.1 hp with rfl | hp
  · simp
  · simp [List.mem_singleton.1 hp]

/-- The state in which an acquisition stays in the directory of dependencies. -/
structure Ready (c : Config) (top : Location) (w : World) : Prop where
  upright : Upright w.volume
  here : w.volume.lookup w.cwd = some .dir
  anchored : Anchored w.volume w.cwd c.deps top

theorem Ready.makeRoots (h : Ready c top w) : Ready c top ((makeRoots c).run o w).2 := by
  have later : Moved (Later top) w ((Library.makeRoots c).run o w).2 :=
    moves_makeRoots Later.trans (fun p _ => (moves_ensureDir p).imp fun _ _ g => g.later) o w rfl
  obtain ⟨upright, here⟩ := (moves_makeRoots (c := c) (fun _ _ _ f g h => g (f h))
    (fun p _ => upright_ensureDir p) o w rfl).now ⟨h.upright, h.here⟩
  refine ⟨upright, ?_, ?_⟩
  · rw [later.cwd]
    exact here
  · rw [later.cwd]
    exact h.anchored.later later.now

theorem spares_acquire (h : Ready c top w) (aside : lib.Aside c top l)
    (tame : ∀ b, lib.source.Accepted o b → lib.source.Tame c.deps w.cwd top (o.archive b)) :
    Spares l w.volume ((discard (lib.source.acquire c.deps)).run o w).2.volume := by
  obtain ⟨w₁, ensured, within⟩ :=
    Source.acquire_confined (named_source lib) h.upright h.here h.anchored tame
  rw [world_discard]
  exact (ensured.now.spares (aside.foreign c.deps (by simp))).trans _ _ _
    (within.now.spares aside.outside)

section Failed

variable (ready : Ready c top w)
  (children : ∀ cmd l v out, o.spawn cmd l v = .ok out → Within top v out.volume)
  (tame : ∀ b, lib.source.Accepted o b → lib.source.Tame c.deps w.cwd top (o.archive b))
include ready children tame

/-- A build that fails has put nothing in a place outside, unless under the name of an artifact that
it has copied. -/
theorem build_failed (run : (lib.build c).run o w = (.error e, w')) :
    ∃ done rest, (lib.artifacts c.targetOs).spots c.layout = done ++ rest ∧
      (done = [] ∨ ∃ src s later cause, rest = s :: later ∧ e = .copy src (s.1 / s.2) cause) ∧
      ∀ l, lib.Aside c top l → l.head? ≠ some (ofText importAlias) →
        (∀ s ∈ done, l.head? ≠ some (ofText s.2)) → Spares l w.volume w'.volume := by
  rw [run_build] at run
  split at run
  · cases run
  have made : ∀ {l}, lib.Aside c top l → Moved (Spares l) w ((makeRoots c).run o w).2 :=
    fun aside => spares_makeRoots aside o w rfl
  have ready := ready.makeRoots (o := o)
  rcases run_bind_error.1 run with run | ⟨_, w₁, run₁, run⟩
  · obtain ⟨x, rfl, failed⟩ := run_mapError_error.1 run
    refine ⟨[], _, rfl, .inl rfl, fun l aside _ _ => ?_⟩
    have := (made aside).now
    rwa [show (makeRoots c).run o w = _ from failed] at this
  have run₁ : (makeRoots c).run o w = (.ok (), w₁) := run_mapError_ok.1 run₁
  rw [run₁] at ready
  have acquired : ∀ {l}, lib.Aside c top l →
      Spares l w.volume ((discard (lib.source.acquire c.deps)).run o w₁).2.volume := by
    intro l aside
    have made := made aside
    rw [run₁] at made
    exact made.now.trans _ _ _ (spares_acquire ready aside (by rw [made.cwd]; exact tame))
  rcases run_bind_error.1 run with run | ⟨_, w₂, run₂, run⟩
  · refine ⟨[], _, rfl, .inl rfl, fun l aside _ _ => ?_⟩
    have := acquired aside
    rwa [run] at this
  have compiled : ∀ {l}, lib.Aside c top l →
      Spares l w.volume ((lib.compile c).run o w₂).2.volume := by
    intro l aside
    have := acquired aside
    rw [run₂] at this
    exact this.trans _ _ _ (spares_compile aside children w₂).now
  rcases run_bind_error.1 run with run | ⟨_, w₃, run₃, run⟩
  · refine ⟨[], _, rfl, .inl rfl, fun l aside _ _ => ?_⟩
    have := compiled aside
    rwa [run] at this
  rcases run_bind_error.1 run with run | ⟨_, w₄, _, run⟩
  · obtain ⟨done, rest, hs, herr, spares⟩ := install_failed run
    refine ⟨done, rest, hs, herr, fun l aside ha hdone => ?_⟩
    have := compiled aside
    rw [run₃] at this
    exact this.trans _ _ _ (spares l aside ha hdone)
  · cases run

omit ready children tame in
theorem seen_in_dir {p : Path} {n : String} (hn : IsName (ofText n))
    (built : lib.isBuilt c w'.toView = true) (h : p / n ∈ (lib.artifacts c.targetOs).paths c.layout) :
    ∃ d x, Opens w'.volume w'.cwd p d ∧
      w'.volume.entryAt w'.cwd (p / n) = .ok (ofText n :: d, x) := by
  unfold isBuilt at built
  rw [Bool.and_eq_true, List.all_eq_true] at built
  have seen : (w'.volume.stat w'.cwd (p / n)).isOk = true := built.2 _ h
  cases hy : w'.volume.stat w'.cwd (p / n) with
  | error y =>
    rw [hy] at seen
    cases seen
  | ok y =>
    obtain ⟨k, y⟩ := y
    obtain ⟨d, hd, hsome⟩ := Volume.stat_div hn hy
    obtain ⟨L, hL, _, _⟩ := stat_ok.1 hy
    obtain ⟨hc, hl, _⟩ := reach_div_opens hn hL
    obtain ⟨x, hx⟩ := Option.isSome_iff_exists.1 hsome
    exact ⟨d, x, hd, (entryAt_div hn).2 ⟨hc, hl, d, hd, rfl, hx⟩⟩

end Failed

section Sample

/-- The build fails, and only from then on the library counts as built. -/
def FailedBuilt (lib : Library) (c : Config) (o : Outside) (w : World) : Prop :=
  lib.isBuilt c w.toView = false ∧ c.updating w.toView = false ∧
    ((lib.build c).run o w).1.isOk = false ∧ lib.isBuilt c ((lib.build c).run o w).2.toView = true

instance (lib : Library) (c : Config) (o : Outside) (w : World) :
    Decidable (FailedBuilt lib c o w) := inferInstanceAs (Decidable (_ ∧ _ ∧ _ ∧ _))

/-- Two artifacts of an earlier installation, and a prefix that has only the third. -/
def staleWorld : World :=
  zlibWorld <| [("/i", .dir), ("/i/Lib", .dir), ("/i/Lib/libz.so.1", text),
    ("/i/Lib/libz.so", text)] ++ prefixEntries [("lib/libz.so.1.2.11", text)]

/-- Programs that write the artifacts of zlib into the prefix and then fail. -/
def halfway : Outside where
  exchange := quiet.exchange
  digest := quiet.digest
  archive := quiet.archive
  spawn _ _ v := .ok ⟨(zlib.artifacts .linux).lib.foldl (fun v n =>
    v.put (ofText n :: ["lib", "zlib-1.2.11.install", "d"].map ofText) text) v, [], .code 2⟩

end Sample

end Library

end PinnedDeps
