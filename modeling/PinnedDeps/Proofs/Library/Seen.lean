import PinnedDeps.Proofs.Library.Aliasing
import PinnedDeps.Proofs.Library.Failing

/-!
What is seen of a library that has just been built. Its artifacts have been copied out of the prefix, links
as links of the same text. So one from which links among the listed names of its directory lead to a listed
file is read, in any layout, as that file was read in the prefix; where the others lead depends on what else
is there.
-/
namespace PinnedDeps

open PinnedDeps.Action Volume
open Bytes (ofText)

variable {o : Outside} {w w' w₁ w₂ w₃ : World} {v u : Volume} {cwd d D M l : Location} {n : String}
  {names : List String} {p src : Path} {past : List Location} {f : File} {lib : Library} {c : Config}

namespace Volume

/-- Outside some places, what stands in the first volume stands in the second. -/
def HoldsBut (past : List Location) (v u : Volume) : Prop :=
  ∀ l x, l ∉ past → v.lookup l = some x → u.lookup l = some x

theorem HoldsBut.trans {x : Volume} (h : HoldsBut past v u) (g : HoldsBut past u x) : HoldsBut past v x :=
  fun l y hl hy => g l y hl (h l y hl hy)

/-- A way past the places is still there. -/
theorem HoldsBut.opens (h : HoldsBut past v u) (way : Opens (v.without past) cwd p d) : Opens u cwd p d := by
  refine way.keep fun l x hx _ => ?_
  cases l with
  | nil => exact hx
  | cons n d =>
    rw [lookup_without _ _ (by simp)] at hx
    split at hx
    · cases hx
    · exact h _ _ ‹_› hx

end Volume

theorem Installed.holdsBut (h : Installed p names M w w') (places : ∀ n ∈ names, ofText n :: M ∈ past) :
    HoldsBut past w.volume w'.volume := by
  intro l x hl hx
  rw [h.elsewhere l fun n listed e => hl (e ▸ places n listed), hx]

/-- Copies that all succeed have copied what stood under the names when they began, if the way to it passes
none of the places that are copied to. No file has been copied onto itself. -/
theorem copyArtifacts_copy (named : ∀ n ∈ names, IsName (ofText n))
    (run : (copyArtifacts src p names).run o w = (.ok (), w')) (opens : Opens w.volume w.cwd p M)
    (places : ∀ n ∈ names, ofText n :: M ∈ past) (holds : HoldsBut past v w.volume)
    (way : Opens (v.without past) w.cwd src D) :
    ∀ n ∈ names, ∃ x, w.volume.lookup (ofText n :: D) = some x ∧
      w'.volume.lookup (ofText n :: M) = some x.copied ∧ ∀ f, x = .file f → D ≠ M := by
  unfold copyArtifacts at run
  induction names generalizing w with
  | nil => simp
  | cons n ns ih =>
    rw [forM_cons] at run
    obtain ⟨_, w₁, first, onward⟩ := run_bind_ok.1 run
    obtain ⟨M', k, x, installed, seen, copy, other⟩ := copyArtifact_copies (named n (by simp)) first
    obtain rfl := installed.before.unique opens
    obtain ⟨-, -, e, reached, rfl, there⟩ := (entryAt_div (named n (by simp))).1 seen
    obtain rfl := reached.unique (holds.opens way)
    have apart : ∀ f, x = .file f → e ≠ M' := fun f hf same => other f hf (by rw [same])
    -- The originals stay, also if they are links that are copied onto themselves.
    have originals : ∀ m, w₁.volume.lookup (ofText m :: e) = w.volume.lookup (ofText m :: e) := by
      intro m
      by_cases here : ofText m :: e = ofText n :: M'
      · obtain ⟨hm, rfl⟩ := List.cons.inj here
        obtain rfl := Bytes.ofText_inj.1 hm
        rw [copy, there]
        cases x with
        | file f => exact absurd rfl (apart f rfl)
        | dir => rfl
        | link t => rfl
      · exact installed.elsewhere _ (by simpa using here)
    have holds₁ : HoldsBut past v w₁.volume :=
      holds.trans (installed.holdsBut fun m hm => places m (by simp [List.mem_singleton.1 hm]))
    have later : ∀ m ∈ ns, ∃ x, w.volume.lookup (ofText m :: e) = some x ∧
        w'.volume.lookup (ofText m :: M') = some x.copied ∧ ∀ f, x = .file f → e ≠ M' := by
      intro m hm
      obtain ⟨y, hy, rest⟩ := ih (fun m hm => named m (by simp [hm])) onward installed.after
        (fun m hm => places m (by simp [hm])) holds₁ (installed.cwd ▸ way) m hm
      exact ⟨y, (originals m).symm.trans hy, rest⟩
    intro m hm
    by_cases again : m ∈ ns
    · exact later m again
    obtain rfl : m = n := (List.mem_cons.1 hm).resolve_right again
    refine ⟨x, there, ?_, apart⟩
    by_cases done : ns = []
    · subst done
      cases onward
      exact copy
    · have onward : (copyArtifacts src p ns).run o w₁ = (.ok (), w') := onward
      obtain ⟨M₂, rest⟩ := copyArtifacts_install (fun m hm => named m (by simp [hm])) done onward
      obtain rfl := installed.after.unique rest.before
      rw [rest.elsewhere, copy]
      intro i hi same
      exact again (Bytes.ofText_inj.1 (List.cons.inj same).1 ▸ hi)

/-- A directory of a prefix, the directory that its artifacts are copied to, and their names. -/
structure Side where
  src : Path
  dst : Path
  names : List String
  deriving DecidableEq

namespace Side

variable {s : Side}

/-- From a name, links among the listed names lead to a listed file. The directory of the prefix is reached
past the given places, and the way to the directory of the copies leaves enough links to follow. -/
def LeadsTo (s : Side) (past : List Location) (before after : View) (n : String) (f : File) : Prop :=
  ∃ d k e i, Opens (before.volume.without past) before.cwd s.src d ∧
    Chain before.volume d s.names k n f ∧
    Leads after.volume i (startOf after.cwd s.dst.bytes) s.dst.segments e ∧ i + k ≤ maxLinks

/-- One side of an installation: what its copying has found, and what of its copies there is in the end. -/
structure Landed (s : Side) (o : Outside) (past : List Location) (w w₁ w₂ w' : World) (M : Location) :
    Prop where
  run : (copyArtifacts s.src s.dst s.names).run o w₁ = (.ok (), w₂)
  installed : Installed s.dst s.names M w₁ w₂
  cwd : w₁.cwd = w.cwd
  named : ∀ n ∈ s.names, IsName (ofText n)
  holds : HoldsBut past w.volume w₁.volume
  found : ∀ n ∈ s.names, ∀ d x, w.volume.lookup (ofText n :: d) = some x →
    w₁.volume.lookup (ofText n :: d) = some x
  opens : Opens w'.volume w'.cwd s.dst M
  kept : ∀ n ∈ s.names, w'.volume.lookup (ofText n :: M) = w₂.volume.lookup (ofText n :: M)
  places : ∀ n ∈ s.names, ofText n :: M ∈ past

/-- A file or a link stands at the path of every artifact. -/
theorem Landed.entryAt (h : s.Landed o past w w₁ w₂ w' M) (listed : n ∈ s.names) :
    ∃ k e, w'.volume.entryAt w'.cwd (s.dst / n) = .ok (k, e) ∧ e ≠ .dir := by
  obtain ⟨usable, short⟩ := h.installed.valid n listed
  obtain ⟨e, there, notDir⟩ := h.installed.here n listed
  rw [← h.kept n listed] at there
  exact ⟨_, e, (entryAt_div (h.named n listed)).2 ⟨usable, short, M, h.opens, rfl, there⟩, notDir⟩

/-- What led to a file before the installation is read through its copy as that file. -/
theorem Landed.reads (h : s.Landed o past w w₁ w₂ w' M) (listed : n ∈ s.names)
    (led : s.LeadsTo past w.toView w'.toView n f) :
    w'.volume.readFile w'.cwd (s.dst / n) = .ok f.bytes := by
  obtain ⟨d, k, e, i, way, chain, leads, within⟩ := led
  obtain ⟨j, -, leads'⟩ := h.opens
  obtain ⟨rfl, rfl⟩ := leads.unique leads'
  have copies := copyArtifacts_copy h.named h.run h.installed.before h.places h.holds (h.cwd ▸ way)
  have copied := (chain.congr listed fun m hm x hx => h.found m hm d x hx).copied listed
    fun m hm x hx => by
      obtain ⟨y, hy, there, -⟩ := copies m hm
      cases hy.symm.trans hx
      exact there
  have last := copied.congr listed fun m hm x hx => (h.kept m hm).trans hx
  exact last.readFile listed h.named (fun m hm => (h.installed.valid m hm).2) leads within
    (h.installed.valid n listed).1

end Side

namespace Artifacts

variable {a : Artifacts} {pre : Path} {lay : Layout}

def sides (a : Artifacts) (pre : Path) (l : Layout) : List Side :=
  [⟨pre / "lib", l.libDir, a.lib⟩, ⟨pre / "bin", l.binDir, a.bin⟩]

theorem mem_sides {s : Side} : s ∈ a.sides pre lay ↔
    s = ⟨pre / "lib", lay.libDir, a.lib⟩ ∨ s = ⟨pre / "bin", lay.binDir, a.bin⟩ := by
  simp [sides]

theorem mem_paths : p ∈ a.paths lay ↔ ∃ s ∈ a.sides pre lay, ∃ n ∈ s.names, p = s.dst / n := by
  simp [paths, sides, eq_comm]

theorem moves_makeDirs_thins (lay : Layout) : Moves cwd (fun v u => Thins u v) (makeDirs lay) := by
  have each : ∀ p : Path, Moves cwd (fun v u => Thins u v) (ensureDir p) :=
    fun p => (moves_ensureDir p).imp fun _ _ made => made.thins
  exact moves_bind (fun u v x h g => g.trans _ _ _ h) (each _) fun _ => each _

/-- Where the entries at some paths stand. -/
def standing (v : Volume) (cwd : Location) (ps : List Path) : List Location :=
  ps.filterMap fun p => (v.entryAt cwd p).toOption.map Prod.fst

theorem mem_standing {ps : List Path} :
    l ∈ standing v cwd ps ↔ ∃ p ∈ ps, ∃ e, v.entryAt cwd p = .ok (l, e) := by
  unfold standing
  rw [List.mem_filterMap]
  constructor
  · rintro ⟨p, hp, h⟩
    refine ⟨p, hp, ?_⟩
    cases hx : v.entryAt cwd p with
    | error e => rw [hx] at h; cases h
    | ok y =>
      rw [hx] at h
      cases h
      exact ⟨_, rfl⟩
  · rintro ⟨p, hp, e, h⟩
    exact ⟨p, hp, by rw [h]; rfl⟩

/-- Installed artifacts that are still there stand at their paths. -/
theorem standing_of_installed {ps : List Path} {dst : Path} (installed : Installed dst names M w₁ w₂)
    (opens : Opens w'.volume w'.cwd dst M)
    (kept : ∀ n ∈ names, w'.volume.lookup (ofText n :: M) = w₂.volume.lookup (ofText n :: M))
    (named : ∀ n ∈ names, IsName (ofText n)) (listed : ∀ n ∈ names, dst / n ∈ ps) :
    ∀ n ∈ names, ofText n :: M ∈ standing w'.volume w'.cwd ps := by
  intro n hn
  obtain ⟨usable, short⟩ := installed.valid n hn
  obtain ⟨e, there, -⟩ := installed.here n hn
  rw [← kept n hn] at there
  exact mem_standing.2 ⟨_, listed n hn, e,
    (entryAt_div (named n hn)).2 ⟨usable, short, M, opens, rfl, there⟩⟩

/-- The library directory can be reached on a way that passes no installed program. -/
def ApartFromPrograms (a : Artifacts) (l : Layout) (view : View) : Prop :=
  ∃ M, Opens (view.volume.without
    (standing view.volume view.cwd (a.bin.map fun n : String => l.binDir / n))) view.cwd l.libDir M

section Installed

variable (named : ∀ n ∈ a.lib ++ a.bin, IsName (ofText n)) (once : (a.lib ++ a.bin).Nodup)
include named once

/-- The libraries that have been copied are still there when the programs have been, too. -/
theorem libraries_stay (libs : Installed lay.libDir a.lib M w₁ w₂)
    (bins : (copyArtifacts (pre / "bin") lay.binDir a.bin).run o w₂ = (.ok (), w'))
    (apart : a.bin ≠ [] → a.ApartFromPrograms lay w'.toView) :
    Opens w'.volume w'.cwd lay.libDir M ∧
      ∀ n ∈ a.lib, ∀ d, w'.volume.lookup (ofText n :: d) = w₂.volume.lookup (ofText n :: d) := by
  by_cases alone : a.bin = []
  · rw [alone] at bins
    cases bins
    exact ⟨libs.after, fun _ _ _ => rfl⟩
  obtain ⟨B, installed⟩ := copyArtifacts_install (fun n hn => named n (by simp [hn])) alone bins
  obtain ⟨X, way⟩ := apart alone
  refine ⟨?_, fun n hn d => installed.elsewhere _ fun m hm same => ?_⟩
  · have before : Opens w₂.volume w₂.cwd lay.libDir X := by
      have back : HoldsBut (standing w'.volume w'.cwd (a.bin.map fun n : String => lay.binDir / n))
          w'.volume w₂.volume := by
        intro l x hl hx
        rw [← installed.elsewhere l fun m hm here => hl ?_, hx]
        obtain ⟨e, seen, -⟩ := installed.entryAt (named m (by simp [hm])) hm
        exact mem_standing.2 ⟨_, List.mem_map.2 ⟨m, hm, rfl⟩, e, here ▸ seen⟩
      exact installed.cwd ▸ back.opens way
    obtain rfl := libs.after.unique before
    exact HoldsBut.opens (fun _ _ _ hx => hx) way
  · obtain rfl := Bytes.ofText_inj.1 (List.cons.inj same).1
    exact (List.nodup_append.1 once).2.2 n hn n hm rfl

/-- An installation that succeeds has landed both of its sides. -/
theorem installFrom_lands (filled : a.lib ≠ []) (run : (a.installFrom pre lay).run o w = (.ok (), w'))
    (apart : a.bin ≠ [] → a.ApartFromPrograms lay w'.toView) {s : Side} (hs : s ∈ a.sides pre lay)
    (any : s.names ≠ []) :
    ∃ w₁ w₂ M, s.Landed o (standing w'.volume w'.cwd (a.paths lay)) w w₁ w₂ w' M := by
  have hlib : ∀ n ∈ a.lib, IsName (ofText n) := fun n hn => named n (by simp [hn])
  have hbin : ∀ n ∈ a.bin, IsName (ofText n) := fun n hn => named n (by simp [hn])
  unfold installFrom at run
  obtain ⟨_, w₁, dirs, copied⟩ := run_bind_ok.1 run
  obtain ⟨_, w₂, libs, bins⟩ := run_bind_ok.1 copied
  have made := moves_makeDirs_thins lay o w rfl
  rw [show (makeDirs lay).run o w = _ from run_mapError_ok.1 dirs] at made
  obtain ⟨M, installed⟩ := copyArtifacts_install hlib filled libs
  obtain ⟨opens, stay⟩ := libraries_stay named once installed bins apart
  have places : ∀ n ∈ a.lib, ofText n :: M ∈ standing w'.volume w'.cwd (a.paths lay) :=
    standing_of_installed installed opens (fun n hn => stay n hn M) hlib fun n hn =>
      List.mem_append_left _ (List.mem_map.2 ⟨n, hn, rfl⟩)
  obtain rfl | rfl := mem_sides.1 hs
  · exact ⟨w₁, w₂, M, libs, installed, made.cwd, hlib, fun l x _ => made.now l x,
      fun _ _ d x => made.now _ x, opens, fun n hn => stay n hn M, places⟩
  · obtain ⟨B, programs⟩ := copyArtifacts_install hbin any bins
    refine ⟨w₂, w', B, bins, programs, installed.cwd.trans made.cwd, hbin,
      HoldsBut.trans (fun l x _ => made.now l x) (installed.holdsBut places), fun n hn d x hx => ?_,
      programs.after, fun _ _ => rfl, standing_of_installed programs programs.after (fun _ _ => rfl) hbin
        fun n hn => List.mem_append_right _ (List.mem_map.2 ⟨n, hn, rfl⟩)⟩
    rw [installed.elsewhere, made.now _ _ hx]
    intro m hm same
    obtain rfl := Bytes.ofText_inj.1 (List.cons.inj same).1
    exact (List.nodup_append.1 once).2.2 n hm n hn rfl

end Installed

end Artifacts

namespace Library

/-- The prefix that the artifacts are copied from. -/
def lastPrefix (lib : Library) (c : Config) : Path :=
  (Phase.last lib c.target c.host.os).installDir lib c.deps

/-- All that a build does before the artifacts are copied out of the prefix. -/
def prepare (lib : Library) (c : Config) : Action BuildError Unit := do
  mapError .io (makeRoots c)
  discard (lib.source.acquire c.deps)
  lib.compile c
  if lib = zlib ∧ c.targetOs = .windows then
    copyArtifact (lib.lastPrefix c / "lib" / "libzlib.dll.a") (lib.lastPrefix c / "lib" / importAlias)

/-- A build prepares a prefix and then copies the artifacts out of it. -/
theorem run_build_prepare : (lib.build c).run o w =
    if lib.isBuilt c w.toView then (.ok .alreadyBuilt, w)
    else (do
      lib.prepare c
      (lib.artifacts c.targetOs).installFrom (lib.lastPrefix c) c.layout
      return BuildStatus.built).run o w := by
  rw [run_build]
  unfold prepare install lastPrefix makeRoots importAlias
  simp only [bind_assoc]
  by_cases windows : lib = zlib ∧ c.targetOs = .windows
  · simp only [if_pos windows, bind_assoc]
  · simp only [if_neg windows, pure_bind]

/-- A build that succeeds ends with the copying of the artifacts. -/
theorem build_prepares (run : (lib.build c).run o w = (.ok .built, w')) :
    ∃ w₁, (lib.prepare c).run o w = (.ok (), w₁) ∧
      ((lib.artifacts c.targetOs).installFrom (lib.lastPrefix c) c.layout).run o w₁ = (.ok (), w') := by
  rw [run_build_prepare] at run
  split at run
  · cases run
  obtain ⟨_, w₁, prepared, run⟩ := run_bind_ok.1 run
  obtain ⟨_, w₂, installed, run⟩ := run_bind_ok.1 run
  cases run
  exact ⟨w₁, prepared, installed⟩

/-- After a build that succeeds, every artifact that led to a listed file in the prefix is read as that
file. So the library is seen as built exactly if no maintenance run is in sight and the links among the
other artifacts lead somewhere; then the next build does nothing at all. -/
theorem isBuilt_after_build_iff (lib : Library) (c : Config) (o : Outside) (w w' : World)
    (run : (lib.build c).run o w = (.ok .built, w'))
    (apart : (lib.artifacts c.targetOs).bin ≠ [] →
      (lib.artifacts c.targetOs).ApartFromPrograms c.layout w'.toView) :
    let a := lib.artifacts c.targetOs
    let past := Artifacts.standing w'.volume w'.cwd (a.paths c.layout)
    ∃ w₁, (lib.prepare c).run o w = (.ok (), w₁) ∧
      (∀ s ∈ a.sides (lib.lastPrefix c) c.layout, ∀ n ∈ s.names, ∀ f,
        s.LeadsTo past w₁.toView w'.toView n f → w'.volume.readFile w'.cwd (s.dst / n) = .ok f.bytes) ∧
      (lib.isBuilt c w'.toView = true ↔ c.updating w'.toView = false ∧
        ∀ s ∈ a.sides (lib.lastPrefix c) c.layout, ∀ n ∈ s.names,
          (∀ f, ¬ s.LeadsTo past w₁.toView w'.toView n f) →
            ∀ l t, w'.volume.entryAt w'.cwd (s.dst / n) = .ok (l, .link t) →
              w'.leadsSomewhere (s.dst / n) = true) ∧
      (lib.isBuilt c w'.toView = true →
        ∀ o' : Outside, (lib.build c).run o' w' = (.ok .alreadyBuilt, w')) := by
  intro a past
  obtain ⟨w₁, prepared, installed⟩ := build_prepares run
  obtain ⟨hlib, hbin⟩ := isName_artifacts lib c.targetOs
  have landed : ∀ s ∈ a.sides (lib.lastPrefix c) c.layout, ∀ n ∈ s.names, ∃ w₂ w₃ M,
      s.Landed o past w₁ w₂ w₃ w' M := fun s hs n hn =>
    Artifacts.installFrom_lands (List.forall_mem_append.2 ⟨hlib, hbin⟩) (artifacts_apart lib c.targetOs).1
      (artifacts_lib_ne_nil lib c.targetOs) installed apart hs (List.ne_nil_of_mem hn)
  have reads : ∀ s ∈ a.sides (lib.lastPrefix c) c.layout, ∀ n ∈ s.names, ∀ f,
      s.LeadsTo past w₁.toView w'.toView n f →
        w'.volume.readFile w'.cwd (s.dst / n) = .ok f.bytes := by
    intro s hs n hn f led
    obtain ⟨w₂, w₃, M, landed⟩ := landed s hs n hn
    exact landed.reads hn led
  refine ⟨w₁, prepared, reads, ?_, fun built o' => by rw [run_build, if_pos built]⟩
  unfold isBuilt
  rw [Bool.and_eq_true, Bool.not_eq_true', List.all_eq_true]
  constructor
  · rintro ⟨idle, all⟩
    exact ⟨idle, fun s hs n hn _ _ _ _ => all _ (Artifacts.mem_paths.2 ⟨s, hs, n, hn, rfl⟩)⟩
  · rintro ⟨idle, others⟩
    refine ⟨idle, fun p hp => ?_⟩
    obtain ⟨s, hs, n, hn, rfl⟩ := Artifacts.mem_paths.1 hp
    obtain ⟨w₂, w₃, M, landed⟩ := landed s hs n hn
    obtain ⟨k, e, seen, notDir⟩ := landed.entryAt hn
    cases e with
    | dir => exact absurd rfl notDir
    | file f => exact leadsSomewhere_iff.2 ⟨k, _, stat_of_entryAt seen (by simp)⟩
    | link t =>
      by_cases led : ∃ f, s.LeadsTo past w₁.toView w'.toView n f
      · obtain ⟨f, led⟩ := led
        exact leadsSomewhere_of_readFile (reads s hs n hn f led)
      · exact others s hs n hn (fun f h => led ⟨f, h⟩) k t seen

section Sample

/-- The build of zlib succeeds, but the library is not seen as built afterwards. -/
def BuiltUnseen (c : Config) (w : World) : Prop :=
  c.updating w.toView = false ∧ ((zlib.build c).run quiet w).1.toOption = some .built ∧
    zlib.isBuilt c ((zlib.build c).run quiet w).2.toView = false

instance (c : Config) (w : World) : Decidable (BuiltUnseen c w) :=
  inferInstanceAs (Decidable (_ ∧ _ ∧ _))

/-- On Windows with a program that is a link into the library directory. -/
def linkedWorld : World :=
  zlibWorld <| prefixEntries [("lib/libzlib.dll.a", text),
    ("bin/libzlib.dll", linkTo "../Lib/libzlib.dll.a")]

/-- A library with two aliases, of which one leads through the other. -/
def chainedWorld : World :=
  zlibWorld <| prefixEntries [("lib/libz.so.1.2.11", .file ⟨ofText "elf", plainMode, none⟩),
    ("lib/libz.so.1", linkTo "libz.so.1.2.11"), ("lib/libz.so", linkTo "libz.so.1")]

def afterBuild (os : Os) (w : World) : World := ((zlib.build (sample os)).run quiet w).2

/-- In the prefix all three names lead to the file, and nothing on the ways is a link. -/
theorem chainedWorld_leadsTo : ∀ s ∈ (zlib.artifacts .linux).sides (zlib.lastPrefix (sample .linux))
    (sample .linux).layout, ∀ n ∈ s.names,
      s.LeadsTo (Artifacts.standing (afterBuild .linux chainedWorld).volume
        (afterBuild .linux chainedWorld).cwd ((zlib.artifacts .linux).paths (sample .linux).layout))
        ((zlib.prepare (sample .linux)).run quiet chainedWorld).2.toView
        (afterBuild .linux chainedWorld).toView n ⟨ofText "elf", plainMode, none⟩ := by
  intro s hs n hn
  obtain rfl | rfl := Artifacts.mem_sides.1 hs
  · let v := ((zlib.prepare (sample .linux)).run quiet chainedWorld).2.volume
    let d := [ofText "lib", ofText "zlib-1.2.11.install", ofText "d"]
    let names := (zlib.artifacts .linux).lib
    have real : Chain v d names 0 "libz.so.1.2.11" ⟨ofText "elf", plainMode, none⟩ :=
      .file (by decide +kernel)
    have inner := Chain.link (n := "libz.so.1") (by decide +kernel) (by decide) real
    have outer := Chain.link (n := "libz.so") (by decide +kernel) (by decide) inner
    have chain : ∃ k, Chain v d names k n ⟨ofText "elf", plainMode, none⟩ ∧ 0 + k ≤ maxLinks := by
      obtain rfl | rfl | rfl : n = "libz.so.1.2.11" ∨ n = "libz.so.1" ∨ n = "libz.so" := by
        simpa [artifacts] using hn
      · exact ⟨_, real, by decide⟩
      · exact ⟨_, inner, by decide⟩
      · exact ⟨_, outer, by decide⟩
    obtain ⟨k, chain, within⟩ := chain
    refine ⟨d, k, [ofText "Lib", ofText "i"], 0, ⟨0, by decide, ?_⟩, chain, ?_, within⟩
    · exact .enter ⟨by decide, by decide, by decide⟩ (by decide +kernel)
        (.enter ⟨by decide, by decide, by decide⟩ (by decide +kernel)
          (.enter ⟨by decide, by decide, by decide⟩ (by decide +kernel) .done))
    · exact .enter ⟨by decide, by decide, by decide⟩ (by decide +kernel)
        (.enter ⟨by decide, by decide, by decide⟩ (by decide +kernel) .done)
  · cases hn

theorem isBuilt_after_build_linked :
    (((zlib.build (sample .windows)).run quiet linkedWorld).1.toOption = some .built ∧
      (zlib.artifacts .windows).ApartFromPrograms (sample .windows).layout
        (afterBuild .windows linkedWorld).toView ∧
      zlib.isBuilt (sample .windows) (afterBuild .windows linkedWorld).toView = true ∧
      ∀ o : Outside, (zlib.build (sample .windows)).run o (afterBuild .windows linkedWorld) =
        (.ok .alreadyBuilt, afterBuild .windows linkedWorld)) ∧
    ((zlib.build (sample .linux)).run quiet chainedWorld).1.toOption = some .built ∧
      (∀ n ∈ (zlib.artifacts .linux).lib,
        (afterBuild .linux chainedWorld).volume.readFile (afterBuild .linux chainedWorld).cwd
          (("/i/Lib" : Path) / n) = .ok (ofText "elf")) ∧
      zlib.isBuilt (sample .linux) (afterBuild .linux chainedWorld).toView = true ∧
      ∀ o : Outside, (zlib.build (sample .linux)).run o (afterBuild .linux chainedWorld) =
        (.ok .alreadyBuilt, afterBuild .linux chainedWorld) := by
  constructor
  · have built : ((zlib.build (sample .windows)).run quiet linkedWorld).1.toOption = some .built := by
      decide +kernel
    let after := afterBuild .windows linkedWorld
    have apart : (zlib.artifacts .windows).ApartFromPrograms (sample .windows).layout after.toView := by
      have : (after.volume.without (Artifacts.standing after.volume after.cwd
          ((zlib.artifacts .windows).bin.map fun n : String =>
            (sample .windows).layout.binDir / n))).leadsToDir after.cwd
              (sample .windows).layout.libDir = true := by
        decide +kernel
      obtain ⟨e, he, _⟩ := opens_of_leadsToDir this
      exact ⟨e, he⟩
    obtain ⟨w₁, -, -, seen, again⟩ := isBuilt_after_build_iff zlib (sample .windows) quiet
      linkedWorld after (eq_of_toOption built) fun _ => apart
    have all : ∀ p ∈ (zlib.artifacts .windows).paths (sample .windows).layout,
        after.leadsSomewhere p = true := by
      decide +kernel
    have isBuilt : zlib.isBuilt (sample .windows) after.toView = true :=
      seen.2 ⟨by decide +kernel, fun s hs n hn _ _ _ _ =>
        all _ (Artifacts.mem_paths.2 ⟨s, hs, n, hn, rfl⟩)⟩
    exact ⟨built, apart, isBuilt, again isBuilt⟩
  · have built : ((zlib.build (sample .linux)).run quiet chainedWorld).1.toOption = some .built := by
      decide +kernel
    obtain ⟨w₁, prepared, reads, seen, again⟩ := isBuilt_after_build_iff zlib (sample .linux) quiet
      chainedWorld (afterBuild .linux chainedWorld) (eq_of_toOption built) fun some => absurd rfl some
    obtain rfl : ((zlib.prepare (sample .linux)).run quiet chainedWorld).2 = w₁ :=
      congrArg Prod.snd prepared
    have isBuilt : zlib.isBuilt (sample .linux) (afterBuild .linux chainedWorld).toView = true :=
      seen.2 ⟨by decide +kernel, fun s hs n hn unled => absurd (chainedWorld_leadsTo s hs n hn) (unled _)⟩
    refine ⟨built, fun n hn => ?_, isBuilt, again isBuilt⟩
    have libraries : ⟨"/d/zlib-1.2.11.install/lib", "/i/Lib", (zlib.artifacts .linux).lib⟩ ∈
      (zlib.artifacts .linux).sides (zlib.lastPrefix (sample .linux)) (sample .linux).layout := by decide
    exact reads _ libraries n hn _ (chainedWorld_leadsTo _ libraries n hn)

/-- A link to a name that is not copied, a maintenance marker that the making of directories brings
into sight, a program on the way to the library directory, an artifact on the way to the prefix, and so
many links on the way to the library directory that none is left for an alias. -/
theorem built_unseen :
    BuiltUnseen (sample .linux) (zlibWorld <| prefixEntries [("lib/libz.so.1.2.11", text),
      ("lib/libz.so.1", text), ("lib/libz.so", linkTo "libz-real.so"), ("lib/libz-real.so", text)]) ∧
    BuiltUnseen { sample .linux with maintenance := some "/i/Lib/.." }
      (zlibWorld <| [("/i", .dir), ("/i/UPDATING_RPATHS", text)] ++ prefixEntries
        [("lib/libz.so.1.2.11", text), ("lib/libz.so.1", text), ("lib/libz.so", text)]) ∧
    BuiltUnseen { sample .windows with layout := ⟨"/i", "B/libzlib.dll/x", "B"⟩ }
      (zlibWorld <| [("/i", .dir), ("/i/B", .dir), ("/i/B/libzlib.dll", linkTo "/y"), ("/y", .dir),
        ("/y/x", .dir)] ++ prefixEntries [("lib/libzlib.dll.a", text), ("bin/libzlib.dll", text)]) ∧
    BuiltUnseen { sample .linux with deps := "/i/Lib/libz.so.1" }
      (zlibWorld <| [("/i", .dir), ("/i/Lib", .dir), ("/i/Lib/libz.so.1", linkTo "/d"), ("/y", .dir),
        ("/y/zlib-1.2.11.install", .dir), ("/y/zlib-1.2.11.install/lib", .dir),
        ("/y/zlib-1.2.11.install/lib/libz.so", linkTo "nowhere")] ++
        prefixEntries [("lib/libz.so.1.2.11", text), ("lib/libz.so.1", linkTo "/y"),
          ("lib/libz.so", linkTo "libz.so.1.2.11")]) ∧
    BuiltUnseen { sample .linux with
        layout := ⟨"/i", Path.ofText (String.join (.replicate 40 "l/")), "Bin"⟩ }
      (zlibWorld <| [("/i", .dir), ("/i/l", linkTo ".")] ++ prefixEntries [("lib/libz.so.1.2.11", text),
        ("lib/libz.so.1", text), ("lib/libz.so", linkTo "libz.so.1")]) := by
  decide +kernel

end Sample

end Library
end PinnedDeps
