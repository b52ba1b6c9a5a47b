import PinnedDeps.Proofs.Library.Sited

/-!
Builds one after another, with one directory of dependencies and one installation. What a build does
outside the dependencies does not touch the artifacts of another library or for another system, and
it leaves the paths as the next build needs them.
-/
namespace PinnedDeps

open Bytes (ofText)
open PinnedDeps.Action Volume Layout

namespace Action

variable {ε ε' α β : Type} {P : Volume → Prop} {R : Volume → Volume → Prop} {cwd : Location}
  {o : Outside}

/-- From a volume with a property the action comes to one that has it, and the relation leads to all
volumes on the way. -/
def Upholds (P : Volume → Prop) (R : Volume → Volume → Prop) (cwd : Location) (o : Outside)
    (a : Action ε α) : Prop :=
  ∀ w, w.cwd = cwd → P w.volume → Moved R w (a.run o w).2 ∧ P (a.run o w).2.volume

theorem upholds_of_keeping {a : Action ε α}
    (h : ∀ w, w.cwd = cwd → Moved (Keeping P R) w (a.run o w).2) : Upholds P R cwd o a :=
  fun w here hP => ⟨(h w here).imp fun _ k => (k hP).1, ((h w here).now hP).2⟩

theorem upholds_mapError (f : ε → ε') {a : Action ε α} (h : Upholds P R cwd o a) :
    Upholds P R cwd o (mapError f a) := h

theorem upholds_pure (hr : ∀ v, R v v) (x : α) : Upholds P R cwd o (pure x : Action ε α) :=
  fun w _ hP => ⟨.refl hr w, hP⟩

variable (ht : ∀ u v x, R u v → R v x → R u x)
include ht

theorem moved_ends_bind {a : Action ε α} {f : α → Action ε β} {w : World}
    (first : Moved R w (a.run o w).2 ∧ P (a.run o w).2.volume)
    (rest : ∀ x w₁, a.run o w = (.ok x, w₁) →
      Moved R w₁ ((f x).run o w₁).2 ∧ P ((f x).run o w₁).2.volume) :
    Moved R w ((a >>= f).run o w).2 ∧ P ((a >>= f).run o w).2.volume :=
  ⟨first.1.bind ht fun x w₁ run => (rest x w₁ run).1,
    ends_bind (P := fun w => P w.volume) first.2 fun x w₁ run => (rest x w₁ run).2⟩

theorem upholds_bind {a : Action ε α} {f : α → Action ε β} (h : Upholds P R cwd o a)
    (g : ∀ x, Upholds P R cwd o (f x)) : Upholds P R cwd o (a >>= f) := by
  intro w here hP
  have first := h w here hP
  refine moved_ends_bind ht first fun x w₁ run => ?_
  rw [run] at first
  exact g x w₁ (first.1.cwd.trans here) first.2

theorem upholds_forM (hr : ∀ v, R v v) {f : α → Action ε Unit} {as : List α}
    (h : ∀ a ∈ as, Upholds P R cwd o (f a)) : Upholds P R cwd o (as.forM f) := by
  induction as with
  | nil => exact upholds_pure hr ()
  | cons a as ih =>
    rw [forM_cons]
    exact upholds_bind ht (h a (by simp)) fun _ => ih fun x hx => h x (by simp [hx])

end Action

namespace Volume

/-- The entries at some paths, or their absence, are the same. -/
def Untouched (ps : List Path) (cwd : Location) (v u : Volume) : Prop :=
  ∀ p ∈ ps, (u.entryAt cwd p).toOption = (v.entryAt cwd p).toOption

instance (ps : List Path) (cwd : Location) (v u : Volume) : Decidable (Untouched ps cwd v u) :=
  inferInstanceAs (Decidable (∀ p ∈ ps, _ = _))

variable {ps : List Path} {cwd : Location}

theorem Untouched.refl (ps : List Path) (cwd : Location) (v : Volume) : Untouched ps cwd v v :=
  fun _ _ => rfl

theorem Untouched.trans (u v x : Volume) (h : Untouched ps cwd u v) (g : Untouched ps cwd v x) :
    Untouched ps cwd u x := fun p hp => (g p hp).trans (h p hp)

theorem toOption_eq {ε α : Type} {x y : Except ε α} (h : ∀ a, x = .ok a ↔ y = .ok a) :
    x.toOption = y.toOption := by
  cases x with
  | ok a => rw [(h a).1 rfl]
  | error e =>
    cases y with
    | ok b => exact absurd ((h b).2 rfl) (by simp)
    | error e' => rfl

end Volume

/-- Once the directory is there, programs that are run change nothing outside it. -/
def Outside.Contained (o : Outside) (top : Location) : Prop :=
  ∀ cmd l v out, o.spawn cmd l v = .ok out → Ground top v →
    Within top v out.volume ∧ Upright out.volume

/-- The names of the files that a library installs. -/
def Artifacts.names (a : Artifacts) : List String := a.lib ++ a.bin

section Untouched

variable {lay : Layout} {deps p : Path} {cwd : Location} {names : List String} {v u : Volume}
  (sited : lay.Sited deps cwd) (clear : lay.Clear deps cwd v)
  (alters : lay.Alters deps cwd names v u)
include sited clear alters

/-- Under other names nothing is changed where files are installed. -/
theorem entryAt_altered (hp : p ∈ [lay.libDir, lay.binDir]) {n : String} (hn : IsName (ofText n))
    (other : n ∉ names) : (u.entryAt cwd (p / n)).toOption = (v.entryAt cwd (p / n)).toOption := by
  obtain ⟨place, down, -⟩ := sited.target hp
  have way : p.place cwd ∈ lay.ways deps cwd := List.mem_cons_of_mem _ place
  have linkless := clear.linkless _ way
  have linkless' := sited.linkless alters clear.linkless _ way
  have same : u.lookup (ofText n :: p.place cwd) = v.lookup (ofText n :: p.place cwd) := by
    obtain ⟨out, off⟩ := sited.beyond place (ofText n)
    rcases alters _ out with same | ⟨onWay, -⟩ | ⟨-, ⟨m, hm, head⟩, -⟩
    · exact same
    · exact absurd onWay off
    · exact absurd (Bytes.ofText_inj.1 (Option.some.inj head) ▸ hm) other
  -- Where something stands, its directory was there before, and the path leads to it as it did.
  have leads : ∀ x, v.lookup (ofText n :: p.place cwd) = some x →
      (Opens u cwd p (p.place cwd) ↔ Opens v cwd p (p.place cwd)) := by
    intro x hx
    have dir := clear.upright _ _ (by rw [hx]; rfl)
    have above := sited.fixed_above alters clear.upright ⟨_, way, below_refl _⟩ dir
    exact ⟨fun h => h.above down linkless' fun k hk => (above k hk).symm,
      fun h => h.above down linkless above⟩
  refine toOption_eq fun ⟨l, x⟩ => ?_
  rw [entryAt_div hn, entryAt_div hn]
  constructor
  · rintro ⟨valid, short, e, opens, rfl, hx⟩
    obtain rfl := opens.place down linkless'
    rw [same] at hx
    exact ⟨valid, short, _, (leads x hx).1 opens, rfl, hx⟩
  · rintro ⟨valid, short, e, opens, rfl, hx⟩
    obtain rfl := opens.place down linkless
    exact ⟨valid, short, _, (leads x hx).2 opens, rfl, same.trans hx⟩

theorem untouched_of_alters {a : Artifacts} (valid : ∀ n ∈ a.names, IsName (ofText n))
    (other : ∀ n ∈ a.names, n ∉ names) : Untouched (a.paths lay) cwd v u := by
  intro q hq
  simp only [Artifacts.paths, List.mem_append, List.mem_map] at hq
  rcases hq with ⟨n, mem, rfl⟩ | ⟨n, mem, rfl⟩
  · have mem : n ∈ a.names := List.mem_append_left _ mem
    exact entryAt_altered sited clear alters (by simp) (valid n mem) (other n mem)
  · have mem : n ∈ a.names := List.mem_append_right _ mem
    exact entryAt_altered sited clear alters (by simp) (valid n mem) (other n mem)

end Untouched

/-- No name below the root is that of the import library that zlib copies within its prefix. -/
def Layout.Unaliased (lay : Layout) : Prop :=
  ofText Library.importAlias ∉ lay.lib.steps ∧ ofText Library.importAlias ∉ lay.bin.steps

instance (lay : Layout) : Decidable lay.Unaliased := inferInstanceAs (Decidable (_ ∧ _))

namespace Library

variable {lib : Library} {c : Config} {o : Outside} {w w' : World} {names : List String}
  {cwd : Location} {src p : Path} {n : String}

/-- The action leaves all settled, and outside the dependencies it changes no more than a build that
installs files with these names. -/
abbrev Behaves {ε α : Type} (c : Config) (names : List String) (cwd : Location) (o : Outside)
    (a : Action ε α) : Prop :=
  Upholds (c.layout.Settled c.deps cwd) (c.layout.Alters c.deps cwd names) cwd o a

section Stages

variable (sited : c.layout.Sited c.deps cwd)
include sited

/-- Once both directories are there, all is settled. -/
theorem makeRoots_settles (here : w.cwd = cwd) (clear : c.layout.Clear c.deps cwd w.volume) :
    (Moved (c.layout.Alters c.deps cwd names) w ((makeRoots c).run o w).2 ∧
      c.layout.Clear c.deps cwd ((makeRoots c).run o w).2.volume) ∧
    ∀ w', (makeRoots c).run o w = (.ok (), w') → c.layout.Settled c.deps cwd w'.volume ∧
      ∀ u, Opens u.volume u.cwd c.deps (c.deps.place cwd) →
        u.volume.lookup (c.deps.place cwd) = some .dir → (ensureDir c.deps).run o u = (.ok (), u) := by
  subst here
  have way : OnWay (c.layout.ways c.deps w.cwd) (c.deps.place w.cwd) :=
    ⟨_, by simp [ways], below_refl _⟩
  have root := sited.root_onWay
  have down : ∀ p ∈ [c.deps, c.layout.root], p.Descends :=
    fun p hp => sited.descends p (List.mem_append_left [c.layout.lib, c.layout.bin] hp)
  have deps := sited.moves_ensureDir names (down c.deps (by simp)) (way.above (below_tail _))
    (.inr way) ⟨c.deps, by simp, rfl⟩
  have roots := sited.moves_ensureDir names (down c.layout.root (by simp))
    (root.above (below_tail _)) (.inr root) ⟨c.layout.root, by simp, rfl⟩
  have whole := moves_makeRoots (Keeping.trans Alters.trans) (c := c) (by simpa using ⟨deps, roots⟩)
  refine ⟨upholds_of_keeping (whole o) w rfl clear, fun w' run => ?_⟩
  obtain ⟨_, w₁, run₁, run₂⟩ := run_bind_ok.1 run
  obtain ⟨here, based, -, again⟩ := Source.ensureDir_based clear.upright (down _ (by simp))
    (clear.unlinked way) (clear.starts _ (by simp)) run₁
  have clear₁ := (((deps o w rfl).ended run₁).now clear).2
  have moved := (roots o w₁ here).ended run₂
  obtain ⟨alters, clear₂⟩ := moved.now clear₁
  have start := clear₁.starts c.layout.root (by simp)
  rw [← here] at start
  obtain ⟨l, opens, there, -⟩ := ensureDir_stands start run₂
  rw [moved.cwd, here] at opens
  obtain rfl := opens.place (down _ (by simp)) (clear₂.unlinked root)
  exact ⟨⟨clear₂, sited.keeps_based alters clear₁ based clear₂.upright, there⟩, fun u => again u⟩

theorem behaves_acquire (usable : Usable cwd)
    (tame : ∀ b, lib.source.Accepted o b →
      lib.source.Tame c.deps cwd (c.deps.place cwd) (o.archive b))
    (again : ∀ u, Opens u.volume u.cwd c.deps (c.deps.place cwd) →
      u.volume.lookup (c.deps.place cwd) = some .dir → (ensureDir c.deps).run o u = (.ok (), u)) :
    Behaves c names cwd o (discard (lib.source.acquire c.deps)) := by
  intro w here settled
  rw [world_discard]
  obtain ⟨moved, based⟩ :=
    Source.acquire_based (named_source lib) usable tame again here settled.based
  have within : Moved (c.layout.Alters c.deps cwd names) w _ :=
    moved.imp fun _ only => (only.within fun _ => Source.Own.inside).alters
  exact ⟨within, sited.keeps_settled within.now settled based.upright⟩

theorem behaves_compile (contained : o.Contained (c.deps.place cwd)) :
    Behaves c names cwd o (lib.compile c) := by
  refine upholds_of_keeping fun w here => ?_
  subst here
  refine moved_compile lib c (Keeping.refl (Alters.refl _ _ _)) (Keeping.trans Alters.trans) ?_ ?_
  · intro cmd l v out spawned settled
    obtain ⟨within, upright⟩ := contained cmd l v out spawned settled.based.toGround
    have alters : c.layout.Alters c.deps w.cwd names v out.volume := within.alters
    exact ⟨alters, sited.keeps_settled alters settled upright⟩
  · intro phase w₁ here
    exact (sited.moves_ensureDir_div names (isName_work lib phase) o w₁ here).imp
      fun _ => sited.keeping_settled

/-- Copying to a name that is off the ways, if there is no directory, leaves all settled. -/
theorem behaves_copyArtifact (hn : IsName (ofText n)) (mem : n ∈ names)
    (start : ∃ q ∈ [c.deps, c.layout.root], startOf cwd p.bytes = startOf cwd q.bytes)
    (off : ∀ v e, c.layout.Settled c.deps cwd v → Opens v cwd p e →
      v.lookup (ofText n :: e) ≠ some .dir → ¬ OnWay (c.layout.ways c.deps cwd) (ofText n :: e)) :
    Behaves c names cwd o (copyArtifact src (p / n)) := by
  rintro w rfl settled
  -- Where the path leads nowhere nothing is copied, so any directory will do.
  obtain ⟨top, led, dir, beside⟩ : ∃ top, Led w.volume w.cwd p top ∧
      w.volume.lookup top = some .dir ∧ (¬ Inside (ofText n :: top) (c.deps.place w.cwd) →
        w.volume.lookup (ofText n :: top) ≠ some .dir →
          ¬ OnWay (c.layout.ways c.deps w.cwd) (ofText n :: top)) := by
    by_cases leads : ∃ e, Opens w.volume w.cwd p e
    · obtain ⟨e, opens⟩ := leads
      obtain ⟨q, hq, same⟩ := start
      have starts := settled.starts q hq
      rw [← same] at starts
      have dir := settled.upright.opens_from opens starts
      exact ⟨e, opens.led, dir, fun _ => off _ e settled opens⟩
    · exact ⟨_, fun e opens => absurd ⟨e, opens⟩ leads, settled.based.there,
        fun out => absurd (inside_cons _ _) out⟩
  have swap : Moved _ w ((copyArtifact src (p / n)).run o w).2 := swap_copyArtifact hn led
  have alters : Moved (c.layout.Alters c.deps w.cwd names) w _ :=
    swap.imp fun _ swapped => swapped.alters mem beside
  exact ⟨alters, sited.keeps_settled alters.now settled (swap.now.upright settled.upright dir)⟩

theorem behaves_ensureDir (hp : p ∈ [c.layout.libDir, c.layout.binDir]) :
    Behaves c names cwd o (ensureDir p) := by
  obtain ⟨place, down, start⟩ := sited.target hp
  have way : OnWay (c.layout.ways c.deps cwd) (p.place cwd) :=
    ⟨_, List.mem_cons_of_mem _ place, below_refl _⟩
  have made := sited.moves_ensureDir names down (way.above (below_tail _)) (.inr way)
    ⟨c.layout.root, by simp, start⟩
  exact upholds_of_keeping fun w here => (made o w here).imp fun _ => sited.keeping_settled

/-- An artifact is copied to a place that is off the ways. -/
theorem behaves_copyArtifacts (hp : p ∈ [c.layout.libDir, c.layout.binDir]) {ns : List String}
    (valid : ∀ n ∈ ns, IsName (ofText n)) (mem : ∀ n ∈ ns, n ∈ names) :
    Behaves c names cwd o (copyArtifacts src p ns) := by
  obtain ⟨place, down, start⟩ := sited.target hp
  refine upholds_forM Alters.trans (Alters.refl _ _ _) fun n hn => ?_
  refine behaves_copyArtifact sited (valid n hn) (mem n hn) ⟨c.layout.root, by simp, start⟩ ?_
  intro v e settled opens _
  obtain rfl := opens.place down (settled.linkless _ (List.mem_cons_of_mem _ place))
  exact (sited.beyond place _).2

/-- The import library is copied within the prefix, or to a place beside the ways. -/
theorem behaves_copyAlias (phase : Phase) (mem : importAlias ∈ names)
    (unaliased : c.layout.Unaliased) :
    Behaves c names cwd o (copyArtifact src (phase.installDir lib c.deps / "lib" / importAlias)) := by
  have inner : IsName (ofText (lib.prefixName phase)) := isName_prefixName lib phase
  refine behaves_copyArtifact sited (by decide) mem ⟨c.deps, by simp, ?_⟩ ?_
  · exact (Path.start_div _ (by decide) _).trans (Path.start_div c.deps inner _)
  intro v e settled _ notDir way
  have beyond : ∀ d, v.lookup d = some .dir → ¬ Below d (ofText importAlias :: e) :=
    fun d dir below => notDir (settled.upright.above dir below)
  -- Both directories are there, so only names below the root could be in its way.
  obtain ⟨d, hd, below⟩ := way
  have named : ∀ q : Path, q.isAbsolute = false → ofText importAlias ∉ q.steps →
      ¬ Below ((c.layout.root.join q).place cwd) (ofText importAlias :: e) := by
    intro q relative unaliased below
    rw [Path.place_join relative] at below
    exact unaliased (mem_of_between below (beyond _ settled.root))
  obtain ⟨inLib, inBin⟩ := unaliased
  simp only [ways, places, List.mem_cons, List.not_mem_nil, or_false] at hd
  rcases hd with rfl | rfl | rfl
  · exact beyond _ settled.based.there below
  · exact named _ sited.relative.1 inLib below
  · exact named _ sited.relative.2 inBin below

theorem behaves_install (mem : ∀ n ∈ (lib.artifacts c.targetOs).names, n ∈ names)
    (unaliased : lib = zlib → c.targetOs = .windows → c.layout.Unaliased) :
    Behaves c names cwd o (lib.install c) := by
  obtain ⟨hlib, hbin⟩ := isName_artifacts lib c.targetOs
  have installed : ∀ pre, Behaves c names cwd o
      ((lib.artifacts c.targetOs).installFrom pre c.layout) := by
    intro pre
    refine upholds_bind Alters.trans (upholds_mapError _ ?_) fun _ => ?_
    · exact upholds_bind Alters.trans (behaves_ensureDir sited (by simp)) fun _ =>
        behaves_ensureDir sited (by simp)
    · refine upholds_bind Alters.trans ?_ fun _ => ?_
      · exact behaves_copyArtifacts sited (by simp) hlib fun n hn => mem n (List.mem_append_left _ hn)
      · exact behaves_copyArtifacts sited (by simp) hbin fun n hn => mem n (List.mem_append_right _ hn)
  unfold install
  simp only
  split
  · rename_i onWindows
    obtain ⟨rfl, windows⟩ := onWindows
    refine upholds_bind Alters.trans ?_ fun _ => installed _
    refine behaves_copyAlias sited _ (mem _ ?_) (unaliased rfl windows)
    rw [windows]
    decide
  · exact installed _

end Stages

/-- Outside the dependencies, a build changes no artifacts but its own, and it leaves the ways
clear. -/
theorem build_alters (sited : c.layout.Sited c.deps cwd) (usable : Usable cwd)
    (contained : o.Contained (c.deps.place cwd))
    (tame : ∀ b, lib.source.Accepted o b →
      lib.source.Tame c.deps cwd (c.deps.place cwd) (o.archive b))
    (unaliased : lib = zlib → c.targetOs = .windows → c.layout.Unaliased)
    (here : w.cwd = cwd) (clear : c.layout.Clear c.deps cwd w.volume) :
    Moved (c.layout.Alters c.deps cwd (lib.artifacts c.targetOs).names) w ((lib.build c).run o w).2 ∧
      c.layout.Clear c.deps cwd ((lib.build c).run o w).2.volume := by
  have rest : ∀ again, Behaves c (lib.artifacts c.targetOs).names cwd o (do
        discard (lib.source.acquire c.deps)
        lib.compile c
        lib.install c
        return BuildStatus.built) := fun again =>
    upholds_bind Alters.trans (behaves_acquire sited usable tame again) fun _ =>
      upholds_bind Alters.trans (behaves_compile sited contained) fun _ =>
        upholds_bind Alters.trans (behaves_install sited (fun _ => id) unaliased) fun _ =>
          upholds_pure (Alters.refl _ _ _) _
  rw [run_build]
  split
  · exact ⟨.refl (Alters.refl _ _ _) w, clear⟩
  obtain ⟨⟨moved, clear⟩, settles⟩ := makeRoots_settles (o := o) sited here clear
  have roots := moved_mapError BuildError.io moved
  refine moved_ends_bind Alters.trans ⟨roots, clear⟩ fun _ w₁ run => ?_
  have run : (makeRoots c).run o w = (.ok (), w₁) := run_mapError_ok.1 run
  obtain ⟨settled, again⟩ := settles w₁ run
  obtain ⟨moved', ends⟩ := rest again w₁ ((moved.ended run).cwd.trans here) settled
  exact ⟨moved', ends.toClear⟩

section Calls

/-- One build of several, with what is outside of it. -/
structure Call where
  lib : Library
  config : Config
  outside : Outside

namespace Call

def run (k : Call) (w : World) : World := ((k.lib.build k.config).run k.outside w).2

/-- The build is of the library for the system, and finds something to do. -/
def Makes (k : Call) (lib : Library) (os : Os) (w : World) : Prop :=
  k.lib = lib ∧ k.config.targetOs = os ∧ lib.isBuilt k.config w.toView = false

/-- Programs change nothing outside the directory of dependencies, archives that are accepted only
give the tree of the source, and files are not installed under the name of the import library. -/
structure Obeys (k : Call) (lay : Layout) (deps : Path) (cwd : Location) : Prop where
  configured : k.config.deps = deps ∧ k.config.layout = lay
  contained : k.outside.Contained (deps.place cwd)
  tame : ∀ b, k.lib.source.Accepted k.outside b →
    k.lib.source.Tame deps cwd (deps.place cwd) (k.outside.archive b)
  unaliased : k.lib = zlib → k.config.targetOs = .windows → lay.Unaliased

end Call

/-- Several builds, one after another. -/
def runs (ks : List Call) (w : World) : World := ks.foldl (fun w k => k.run w) w

theorem artifacts_disjoint {lib' : Library} {os os' : Os} (h : ¬ (lib' = lib ∧ os' = os)) :
    ∀ n ∈ (lib.artifacts os).names, n ∉ (lib'.artifacts os').names := by
  revert h
  cases lib <;> cases lib' <;> cases os <;> cases os' <;> decide

variable {lay : Layout} {deps : Path} {k : Call} {ks : List Call} {os : Os}

section Obeys

variable (sited : lay.Sited deps cwd) (usable : Usable cwd)
include sited usable

/-- One call of a sequence leaves the ways clear for the next. -/
theorem Call.Obeys.alters (obeys : k.Obeys lay deps cwd) (here : w.cwd = cwd)
    (clear : lay.Clear deps cwd w.volume) :
    Moved (lay.Alters deps cwd (k.lib.artifacts k.config.targetOs).names) w (k.run w) ∧
      lay.Clear deps cwd (k.run w).volume := by
  obtain ⟨rfl, rfl⟩ := obeys.configured
  exact build_alters sited usable obeys.contained obeys.tame obeys.unaliased here clear

theorem runs_clear (obey : ∀ k ∈ ks, k.Obeys lay deps cwd) (here : w.cwd = cwd)
    (clear : lay.Clear deps cwd w.volume) :
    (runs ks w).cwd = cwd ∧ lay.Clear deps cwd (runs ks w).volume := by
  induction ks generalizing w with
  | nil => exact ⟨here, clear⟩
  | cons k ks ih =>
    obtain ⟨moved, clear⟩ := (obey k (by simp)).alters sited usable here clear
    exact ih (fun k hk => obey k (by simp [hk])) (moved.cwd.trans here) clear

/-- A call that is for something else, or has nothing to do, does not touch the artifacts. -/
theorem Call.Obeys.untouched (obeys : k.Obeys lay deps cwd) (here : w.cwd = cwd)
    (clear : lay.Clear deps cwd w.volume) (other : ¬ k.Makes lib os w) :
    Moved (Untouched ((lib.artifacts os).paths lay) cwd) w (k.run w) := by
  by_cases same : k.lib = lib ∧ k.config.targetOs = os
  · obtain ⟨rfl, rfl⟩ := same
    have built : k.lib.isBuilt k.config w.toView = true := by
      simpa [Call.Makes] using other
    unfold Call.run
    rw [run_build, if_pos built]
    exact .refl (Untouched.refl _ _) w
  · obtain ⟨hlib, hbin⟩ := isName_artifacts lib os
    obtain ⟨moved, -⟩ := obeys.alters sited usable here clear
    exact moved.imp fun u alters => untouched_of_alters sited clear alters
      (List.forall_mem_append.2 ⟨hlib, hbin⟩) (artifacts_disjoint same)

theorem runs_untouched (obey : ∀ k ∈ ks, k.Obeys lay deps cwd) (here : w.cwd = cwd)
    (clear : lay.Clear deps cwd w.volume)
    (other : ∀ before k after, ks = before ++ k :: after → ¬ k.Makes lib os (runs before w)) :
    Moved (Untouched ((lib.artifacts os).paths lay) cwd) w (runs ks w) := by
  induction ks generalizing w with
  | nil => exact .refl (Untouched.refl _ _) w
  | cons k ks ih =>
    have first := (obey k (by simp)).untouched sited usable here clear (other [] k ks rfl)
    obtain ⟨moved, clear⟩ := (obey k (by simp)).alters sited usable here clear
    refine first.trans Untouched.trans ?_
    refine ih (fun k hk => obey k (by simp [hk])) (moved.cwd.trans here) clear ?_
    exact fun before j after split => other (k :: before) j after (by rw [split]; rfl)

end Obeys

/-- The artifacts of a library for a system are touched only by builds of that library for that
system that find something to do, wherever these stand among other builds. -/
theorem builds_apart (lay : Layout) (deps : Path) (w : World) (sited : lay.Sited deps w.cwd)
    (usable : Usable w.cwd) (clear : lay.Clear deps w.cwd w.volume) (ks : List Call)
    (obey : ∀ k ∈ ks, k.Obeys lay deps w.cwd) (lib : Library) (os : Os) :
    (∀ before k after, ks = before ++ k :: after → k.Makes lib os (runs before w) ∨
      Moved (Untouched ((lib.artifacts os).paths lay) w.cwd) (runs before w)
        (runs (before ++ [k]) w)) ∧
    ((∀ before k after, ks = before ++ k :: after → ¬ k.Makes lib os (runs before w)) →
      Moved (Untouched ((lib.artifacts os).paths lay) w.cwd) w (runs ks w)) := by
  refine ⟨?_, runs_untouched sited usable obey rfl clear⟩
  rintro before k after rfl
  have earlier : ∀ k ∈ before, k.Obeys lay deps w.cwd :=
    fun k hk => obey k (List.mem_append_left _ hk)
  obtain ⟨here, clear⟩ := runs_clear sited usable earlier rfl clear
  refine (Classical.em _).imp_right fun other => ?_
  rw [show runs (before ++ [k]) w = k.run (runs before w) by simp [runs]]
  exact (obey k (by simp)).untouched sited usable here clear other

end Calls

section Sample

/-- The sources and the prefixes of both libraries are complete, and nothing is installed. -/
def pairWorld : World :=
  zlibWorld <| prefixEntries ((zlib.artifacts .linux).lib.map fun n => ("lib/" ++ n, text)) ++
    [("/d/brotli-1.0.7.src", .dir), ("/d/brotli-1.0.7.src/EXTRACTED", text),
      ("/d/brotli-1.0.7.install", .dir), ("/d/brotli-1.0.7.install/lib", .dir)] ++
    (brotli.artifacts .linux).lib.map fun n => ("/d/brotli-1.0.7.install/lib/" ++ n, text)

def quietCall (lib : Library) : Call := ⟨lib, sample .linux, quiet⟩

theorem quietCall_obeys (lib : Library) :
    (quietCall lib).Obeys (sample .linux).layout (sample .linux).deps [] := by
  refine ⟨⟨rfl, rfl⟩, fun cmd l v out spawned ground => ?_, fun b accepted => ?_,
    fun _ _ => by decide⟩
  · cases spawned
    exact ⟨.refl _ _, ground.upright⟩
  · have digest : lib.source.sha256 = some "" := by
      cases lib <;> exact congrArg some (accepted _ rfl).symm
    cases lib <;> exact absurd digest (by decide)

/-- Both libraries are installed, and the second build does not touch what the first has. -/
theorem builds_apart_pair :
    (∀ lib ∈ all, lib.isBuilt (sample .linux)
      (runs [quietCall zlib, quietCall brotli] pairWorld).toView = true) ∧
    Moved (Untouched ((zlib.artifacts .linux).paths (sample .linux).layout) [])
      (runs [quietCall zlib] pairWorld) (runs [quietCall zlib, quietCall brotli] pairWorld) := by
  have upright : Upright pairWorld.volume := upright_of_entries (by decide +kernel)
  have sited : (sample .linux).layout.Sited (sample .linux).deps [] :=
    ⟨by decide, by decide, by decide, by decide⟩
  have clear : (sample .linux).layout.Clear (sample .linux).deps [] pairWorld.volume :=
    ⟨upright, fun p _ => lookup_startOf rfl _, fun d _ => linkless_of_linkFree (by decide +kernel) _⟩
  have obey : ∀ k ∈ [quietCall zlib, quietCall brotli],
      k.Obeys (sample .linux).layout (sample .linux).deps [] := by
    simp [quietCall_obeys]
  obtain ⟨each, -⟩ := builds_apart (sample .linux).layout (sample .linux).deps pairWorld sited
    (fun s hs => by cases hs) clear _ obey zlib .linux
  refine ⟨by decide +kernel, (each [quietCall zlib] (quietCall brotli) [] rfl).resolve_left ?_⟩
  rintro ⟨other, -⟩
  cases other

/-- Files are installed by relative paths that lead down, in one directory or in two beside each
other, apart from the dependencies, and no link stands on the ways. -/
def Separate (c : Config) (w : World) : Prop :=
  (∀ p ∈ [c.layout.lib, c.layout.bin], p.isAbsolute = false ∧ p.Descends) ∧
    (∀ p ∈ [c.layout.libDir, c.layout.binDir],
      ¬ Below (cleaned w.cwd p) (cleaned w.cwd c.deps) ∧
      ¬ Below (cleaned w.cwd c.deps) (cleaned w.cwd p) ∧
      ∀ q ∈ [c.layout.libDir, c.layout.binDir], Below (cleaned w.cwd p) (cleaned w.cwd q) →
        cleaned w.cwd p = cleaned w.cwd q) ∧
    ∀ p ∈ [c.deps, c.layout.libDir, c.layout.binDir], ∀ l ∈ (cleaned w.cwd p).tails,
      (w.volume.lookup l).all (fun | .link _ => false | _ => true) = true

instance (c : Config) (w : World) : Decidable (Separate c w) :=
  inferInstanceAs (Decidable (_ ∧ _ ∧ _))

/-- A build touches the artifacts of another library or for another system. -/
def Disturbs (lib : Library) (c : Config) (w : World) (other : Library) (os : Os) : Prop :=
  ¬ (lib = other ∧ c.targetOs = os) ∧
    ¬ Untouched ((other.artifacts os).paths c.layout) w.cwd w.volume
      ((lib.build c).run quiet w).2.volume

instance (lib : Library) (c : Config) (w : World) (other : Library) (os : Os) :
    Decidable (Disturbs lib c w other os) := inferInstanceAs (Decidable (_ ∧ _))

/-- The libraries of the prefix are those of the root, where the import library is a link. -/
def aliasedWorld : World :=
  worldOf [("/d", .dir), ("/d/zlib-1.2.11.src", .dir), ("/d/zlib-1.2.11.src/EXTRACTED", text),
    ("/d/zlib-1.2.11.install", .dir), ("/d/zlib-1.2.11.install/lib", linkTo "/i"), ("/i", .dir),
    ("/i/Bin", .dir), ("/i/libzlib.dll.a", linkTo "Bin")]

/-- A missing artifact before a step that leads up, on the path to the dependencies or to the root,
and a directory of the installation below the name of the import library. -/
theorem builds_collide :
    (Separate { sample .linux with deps := "/i/Lib/libz.so/../../../d" } libWorld ∧
      Disturbs brotli { sample .linux with deps := "/i/Lib/libz.so/../../../d" } libWorld zlib
        .linux) ∧
    (Separate { sample .linux with layout := ⟨"/i/Lib/libz.so/../..", "Lib", "Bin"⟩ } libWorld ∧
      Disturbs brotli { sample .linux with layout := ⟨"/i/Lib/libz.so/../..", "Lib", "Bin"⟩ }
        libWorld zlib .linux) ∧
    (Separate { sample .windows with layout := ⟨"/i", "libz.dll.a/libbrotlidec.dll", "Bin"⟩ }
        aliasedWorld ∧
      Disturbs zlib { sample .windows with layout := ⟨"/i", "libz.dll.a/libbrotlidec.dll", "Bin"⟩ }
        aliasedWorld brotli .windows) := by
  decide +kernel

end Sample

end Library

end PinnedDeps
