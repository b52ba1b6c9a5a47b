import PinnedDeps.Proofs.Library.Prefix
import PinnedDeps.Proofs.Source.Requesting

/-!
The gates of a build. Nothing happens where everything is installed; the source is asked for only
while its marker is not in sight; programs are started only with the marker, and each only after the
one before it has succeeded; and before the last of them has, the installed directories stay as they
are.
-/
namespace PinnedDeps

open PinnedDeps.Action Volume Cmake
open Bytes (ofText)

variable {o : Outside} {w₀ w w' : World} {lib : Library} {c : Config} {past es : List Event}

/-- A program that was started has ended with success. -/
def Event.Succeeded : Event → Prop
  | .started _ _ r => ∃ out, r = .ok out ∧ out.status = .success
  | _ => True

theorem Event.IsOwn.succeeded {e : Event} (h : e.IsOwn) : e.Succeeded := by
  cases e with
  | started => exact h.elim
  | _ => trivial

namespace Volume

/-- The entries inside some directories are the same in both volumes. -/
def SameIn (ds : List Location) (v u : Volume) : Prop :=
  ∀ d ∈ ds, ∀ l, Inside l d → u.lookup l = v.lookup l

variable {v u : Volume} {ds : List Location} {top : Location}

theorem SameIn.refl (ds : List Location) (v : Volume) : SameIn ds v v := fun _ _ _ _ => rfl

theorem SameIn.trans (u v x : Volume) (h : SameIn ds u v) (g : SameIn ds v x) : SameIn ds u x :=
  fun d hd l hl => (g d hd l hl).trans (h d hd l hl)

theorem SameIn.symm (h : SameIn ds v u) : SameIn ds u v := fun d hd l hl => (h d hd l hl).symm

/-- Directories are made at or above a place that lies in none of the directories. -/
theorem Paved.sameIn (h : Paved top v u) (apart : ∀ d ∈ ds, ∀ l, Below top l → ¬ Inside l d) :
    SameIn ds v u := by
  intro d hd l hl
  rcases h l with same | ⟨_, _, below⟩
  · exact same
  · exact absurd hl (apart d hd l below)

theorem Within.sameIn (h : Within top v u) (apart : ∀ d ∈ ds, ¬ Below top d ∧ ¬ Below d top) :
    SameIn ds v u := by
  intro d hd l hl
  refine h l fun inside => ?_
  rcases hl.1.total inside.1 with g | g
  · exact (apart d hd).2 g
  · exact (apart d hd).1 g

theorem Linkless.within (h : Linkless top v) (g : Within top v u) : Linkless top u := by
  intro l t hb
  rw [g l fun inside => inside.not_above hb]
  exact h l t hb

/-- The directories stay as they are, and no link is put at or above a place. -/
def Calm (ds : List Location) (top : Location) (v u : Volume) : Prop :=
  SameIn ds v u ∧ (Linkless top v → Linkless top u)

theorem Calm.refl (ds : List Location) (top : Location) (v : Volume) : Calm ds top v v :=
  ⟨.refl ds v, id⟩

theorem Calm.trans (u v x : Volume) (h : Calm ds top u v) (g : Calm ds top v x) : Calm ds top u x :=
  ⟨h.1.trans _ _ _ g.1, fun linkless => g.2 (h.2 linkless)⟩

end Volume

/-- Where files are installed. -/
def Layout.places (l : Layout) (cwd : Location) : List Location :=
  [l.libDir.place cwd, l.binDir.place cwd]

section Records

theorem records_copyArtifact (src dst : Path) : Records Event.IsChange (copyArtifact src dst) := by
  refine records_mapError _ (records_permitted _ (records_bind (records_ask _) fun x => ?_))
  split
  · refine records_bind (records_removeFileIfThere _) fun _ => ?_
    exact records_permitted _ (records_change _)
  · exact records_bind (records_removeFileIfThere _) fun _ => records_copyFile _ _

theorem Artifacts.records_installFrom (a : Artifacts) (pre : Path) (l : Layout) :
    Records Event.IsChange (a.installFrom pre l) := by
  have copied : ∀ src dst names, Records Event.IsChange (copyArtifacts src dst names) :=
    fun _ _ names => records_forM (fun _ => records_copyArtifact _ _) names
  refine records_bind (records_mapError _ ?_) fun _ => records_bind (copied _ _ _) fun _ => copied _ _ _
  exact records_bind (records_ensureDir _) fun _ => records_ensureDir _

end Records

namespace Library

theorem records_makeRoots (c : Config) : Records Event.IsChange (makeRoots c) :=
  records_bind (records_ensureDir _) fun _ => records_ensureDir _

theorem records_install (lib : Library) (c : Config) : Records Event.IsChange (lib.install c) := by
  unfold install
  simp only
  split
  · exact records_bind (records_copyArtifact _ _) fun _ => Artifacts.records_installFrom _ _ _
  · exact Artifacts.records_installFrom _ _ _

/-- The marker of the source is in sight. -/
def isFetched (lib : Library) (c : Config) (cwd : Location) (v : Volume) : Bool :=
  lib.source.isExtracted c.deps v cwd

/-- A program has been run that has taken the marker away. -/
def Unmarks (lib : Library) (c : Config) (cwd : Location) : Event → Prop
  | .started _ before (.ok out) =>
    lib.isFetched c cwd before = true ∧ lib.isFetched c cwd out.volume = false
  | _ => False

/-- The directories of the installation and of the dependencies lie apart, and are named by paths
that lead down and on which no link stands or is put by a program; archives that are accepted only
give the tree of the source. -/
structure Secluded (lib : Library) (c : Config) (o : Outside) (w : World) : Prop where
  upright : Upright w.volume
  here : w.volume.lookup w.cwd = some .dir
  descends : ∀ p ∈ [c.deps, c.layout.root, c.layout.lib, c.layout.bin], p.Descends
  relative : c.layout.lib.isAbsolute = false ∧ c.layout.bin.isAbsolute = false
  apart : ∀ d ∈ c.layout.places w.cwd,
    ¬ Below (c.deps.place w.cwd) d ∧ ¬ Below d (c.deps.place w.cwd)
  linkless : ∀ p ∈ [c.deps, c.layout.root], Linkless (p.place w.cwd) w.volume
  children : ∀ cmd l v out, o.spawn cmd l v = .ok out → Linkless (c.deps.place w.cwd) v →
    Linkless (c.deps.place w.cwd) out.volume
  tame : ∀ b, lib.source.Accepted o b →
    lib.source.Tame c.deps w.cwd (c.deps.place w.cwd) (o.archive b)

/-- All programs of a build have been started and have succeeded. -/
def Compiled (lib : Library) (c : Config) (past : List Event) : Prop :=
  (∀ e ∈ past, e.Succeeded) ∧ (commands past).length = 2 * (phases lib c).length

/-- What a build does only after the events that must have come before. -/
def Gate (lib : Library) (c : Config) (o : Outside) (w : World) (past : List Event) : Event → Prop
  | .requested _ => lib.isFetched c w.cwd w.volume = false ∧
      lib.isFetched c w.cwd (leaves w.volume past) = false ∧ ∀ e ∈ past, e.IsChange
  | .started _ before _ => before = leaves w.volume past ∧ (∀ e ∈ past, e.Succeeded) ∧
      (lib.isFetched c w.cwd before = true ∨ ∃ e ∈ past, lib.Unmarks c w.cwd e)
  | .changed u => lib.Secluded c o w →
      SameIn (c.layout.places w.cwd) (leaves w.volume past) u ∨ lib.Compiled c past

/-- A change that keeps the installed directories is allowed at any time. -/
theorem gate_changed {later earlier : List Event} {u : Volume} (h : Recorded past w₀ w)
    (g : Recorded (later ++ .changed u :: earlier) w w') (own : ∀ e ∈ earlier, e.IsOwn)
    (still : lib.Secluded c o w₀ → Moved (SameIn (c.layout.places w₀.cwd)) w w') :
    lib.Gate c o w₀ (earlier ++ past) (.changed u) := by
  intro secluded
  obtain ⟨before, after⟩ := g.agree (still secluded) (SameIn.refl _) own
  rw [leaves_append, ← h.leaves]
  exact .inl (before.symm.trans _ _ _ after)

/-- A run of changes that keep the installed directories is allowed at any time. -/
theorem gates_of_changes (h : Recorded past w₀ w) (g : Recorded es w w')
    (changes : ∀ e ∈ es, e.IsChange)
    (still : lib.Secluded c o w₀ → Moved (SameIn (c.layout.places w₀.cwd)) w w') :
    Gates (lib.Gate c o w₀) past es := by
  rintro later e earlier rfl
  have kind : e.IsChange := changes e (by simp)
  cases e with
  | changed u => exact gate_changed h g (fun x hx => (changes x (by simp [hx])).isOwn) still
  | requested rs => exact kind.elim
  | started cmd before result => exact kind.elim

/-- The directories on the way to a path that are made apart from the installation. -/
theorem calm_ensureDir {p : Path} (down : p.Descends)
    (apart : ∀ d ∈ c.layout.places w₀.cwd, ∀ l, Below (p.place w₀.cwd) l → ¬ Inside l d)
    (cwd : w.cwd = w₀.cwd) (linkless : Linkless (p.place w₀.cwd).tail w.volume) :
    Moved (fun v u => Calm (c.layout.places w₀.cwd) (c.deps.place w₀.cwd) v u ∧
      Paved (p.place w₀.cwd) v u) w ((ensureDir p).run o w).2 := by
  refine (moves_ensureDir_paved down o w cwd).imp fun u made => ?_
  have paved := made linkless
  exact ⟨⟨paved.sameIn apart, fun free => free.paved paved⟩, paved⟩

namespace Secluded

variable (h : lib.Secluded c o w₀) {l d : Location}
include h

theorem apart_deps (hd : d ∈ c.layout.places w₀.cwd) (hb : Below (c.deps.place w₀.cwd) l) :
    ¬ Inside l d := fun hl => (h.apart d hd).1 (hb.trans hl.1)

theorem apart_work {phase : Phase} (hd : d ∈ c.layout.places w₀.cwd)
    (hb : Below ((phase.buildDir lib c.deps).place w₀.cwd) l) : ¬ Inside l d := by
  intro hl
  rw [show phase.buildDir lib c.deps = c.deps / lib.workName phase from rfl,
    Path.place_div (isName_work lib phase)] at hb
  rcases below_cons_iff.1 hb with rfl | hb
  · rcases below_cons_iff.1 hl.1 with same | below
    · exact hl.2 same.symm
    · exact (h.apart d hd).1 below
  · exact h.apart_deps hd hb hl

theorem apart_root (hd : d ∈ c.layout.places w₀.cwd) (hb : Below (c.layout.root.place w₀.cwd) l) :
    ¬ Inside l d := by
  have inside : Below d (c.layout.root.place w₀.cwd) := by
    simp only [Layout.places, List.mem_cons, List.not_mem_nil, or_false] at hd
    rcases hd with rfl | rfl
    · exact Path.place_join h.relative.1 _ ▸ below_append _ _
    · exact Path.place_join h.relative.2 _ ▸ below_append _ _
  exact fun hl => hl.not_above (inside.trans hb)

end Secluded

section Stages

/-- The directories of a build are being made, and its source has not been asked for. -/
structure Prepared (lib : Library) (c : Config) (o : Outside) (w₀ : World) (past : List Event)
    (w : World) : Prop where
  unasked : Source.Unasked w₀ past w
  seen : lib.isFetched c w₀.cwd w₀.volume = true → lib.isFetched c w₀.cwd w.volume = true
  ready : lib.Secluded c o w₀ →
    Ready c (c.deps.place w₀.cwd) w ∧ Linkless (c.deps.place w₀.cwd) w.volume

/-- The source is there, and so many programs have been started, all of them with success. -/
structure Working (lib : Library) (c : Config) (o : Outside) (w₀ : World) (n : Nat)
    (past : List Event) (w : World) : Prop where
  recorded : Recorded past w₀ w
  succeeded : ∀ e ∈ past, e.Succeeded
  count : (commands past).length = n
  marked : lib.isFetched c w₀.cwd w.volume = true ∨ ∃ e ∈ past, lib.Unmarks c w₀.cwd e
  linkless : lib.Secluded c o w₀ → Linkless (c.deps.place w₀.cwd) w.volume

/-- Changes start no program. -/
theorem Working.still {n : Nat} (h : lib.Working c o w₀ n past w) (changes : ∀ e ∈ es, e.IsChange) :
    (∀ e ∈ es ++ past, e.Succeeded) ∧ (commands (es ++ past)).length = n := by
  constructor
  · exact List.forall_mem_append.2 ⟨fun e he => (changes e he).isOwn.succeeded, h.succeeded⟩
  · rw [commands_append, commands_of_changes changes, List.append_nil]
    exact h.count

theorem Secluded.makeRoots (h : lib.Secluded c o w) :
    Moved (Calm (c.layout.places w.cwd) (c.deps.place w.cwd)) w ((makeRoots c).run o w).2 := by
  have deps := calm_ensureDir (o := o) (h.descends c.deps (by simp)) (fun d hd l => h.apart_deps hd)
    rfl ((h.linkless c.deps (by simp)).above (below_tail _))
  refine Moved.bind Calm.trans (deps.imp fun _ made => made.1) fun _ w₁ run => ?_
  rw [run] at deps
  have linkless := (h.linkless c.layout.root (by simp)).paved deps.now.2
  exact (calm_ensureDir (h.descends c.layout.root (by simp)) (fun d hd l => h.apart_root hd) deps.cwd
    (linkless.above (below_tail _))).imp fun _ made => made.1

theorem passes_makeRoots : Passes (lib.Gate c o w₀) (fun past w => past = [] ∧ w = w₀) (makeRoots c)
    (lib.Prepared c o w₀) o := by
  rintro past w ⟨rfl, rfl⟩
  obtain ⟨es, recorded, changes⟩ := records_makeRoots c o w
  have start : Source.Unasked w [] w := ⟨.refl w, by simp⟩
  refine ⟨es, recorded, gates_of_changes (.refl w) recorded changes
    fun secluded => secluded.makeRoots.imp fun _ calm => calm.1, fun _ _ => ?_⟩
  refine ⟨start.after recorded changes, ?_, fun secluded => ?_⟩
  · have made : Moves w.cwd (fun v u => lib.isFetched c w.cwd v = true → lib.isFetched c w.cwd u = true)
        (makeRoots c) :=
      moves_makeRoots (fun _ _ _ h g seen => g (h seen)) fun p _ =>
        (moves_ensureDir p).imp fun _ _ made => made.thins.leadsSomewhere
    exact (made o w rfl).now
  · have linkless := secluded.linkless c.deps (by simp)
    have ready : Ready c (c.deps.place w.cwd) w := ⟨secluded.upright, secluded.here,
      anchored_of_linkless (secluded.descends c.deps (by simp)) linkless⟩
    exact ⟨ready.makeRoots, secluded.makeRoots.now.2 linkless⟩

theorem Secluded.acquire (h : lib.Secluded c o w₀) (cwd : w.cwd = w₀.cwd)
    (ready : Ready c (c.deps.place w₀.cwd) w) (linkless : Linkless (c.deps.place w₀.cwd) w.volume) :
    Moved (Calm (c.layout.places w₀.cwd) (c.deps.place w₀.cwd)) w
      ((lib.source.acquire c.deps).run o w).2 := by
  have ensured : Moved (Calm (c.layout.places w₀.cwd) (c.deps.place w₀.cwd)) w
      ((ensureDir c.deps).run o w).2 :=
    (calm_ensureDir (h.descends c.deps (by simp)) (fun d hd l => h.apart_deps hd) cwd
      (linkless.above (below_tail _))).imp fun _ made => made.1
  obtain ⟨w₁, first, rest⟩ := Source.acquire_confined_of (named_source lib) ready.upright ready.here
    (Calm.refl _ _) ensured ready.anchored (by rw [cwd]; exact h.tame)
  exact first.trans Calm.trans <| rest.imp fun _ within =>
    ⟨within.sameIn h.apart, fun free => free.within within⟩

/-- The source is asked for at most once, and afterwards its marker is in sight. -/
theorem passes_acquire : Passes (lib.Gate c o w₀) (lib.Prepared c o w₀)
    (discard (lib.source.acquire c.deps)) (lib.Working c o w₀ 0) o := by
  refine passes_discard ?_
  intro past w start
  obtain ⟨es, recorded, asks, ends⟩ := Source.acquire_asks lib.source c.deps o w
  have cwd : w.cwd = w₀.cwd := start.unasked.recorded.cwd
  have own : ∀ e ∈ es, e.IsOwn := asks.all fun _ e asked => by
    cases e with
    | started => exact asked.elim
    | _ => trivial
  have calm : lib.Secluded c o w₀ → Moved (Calm (c.layout.places w₀.cwd) (c.deps.place w₀.cwd)) w
      ((lib.source.acquire c.deps).run o w).2 := fun secluded =>
    secluded.acquire cwd (start.ready secluded).1 (start.ready secluded).2
  refine ⟨es, recorded, ?_, fun x done => ?_⟩
  · rintro later e earlier rfl
    have asked := asks later e earlier rfl
    rw [List.append_nil] at asked
    cases e with
    | changed u =>
      exact gate_changed start.unasked.recorded recorded (fun e he => own e (by simp [he]))
        fun secluded => (calm secluded).imp fun _ h => h.1
    | started => exact asked.elim
    | requested rs =>
      -- A marker that was in sight at the start would still be when the directories are there.
      obtain ⟨unseen, hidden, changes⟩ := asked
      rw [cwd] at unseen hidden
      refine ⟨?_, ?_, List.forall_mem_append.2 ⟨changes, start.unasked.changes⟩⟩
      · cases seen : lib.isFetched c w₀.cwd w₀.volume with
        | false => rfl
        | true => exact (start.seen seen).symm.trans unseen
      · rw [leaves_append, ← start.unasked.recorded.leaves]
        exact hidden
  · have all : ∀ e ∈ es ++ past, e.IsOwn :=
      List.forall_mem_append.2 ⟨own, fun e he => (start.unasked.changes e he).isOwn⟩
    have marked := ends x done
    rw [cwd] at marked
    refine ⟨start.unasked.recorded.trans recorded, fun e he => (all e he).succeeded, ?_,
      .inl marked, fun secluded => (calm secluded).now.2 (start.ready secluded).2⟩
    rw [commands_of_own all]
    rfl

/-- The directory of a phase is made: the marker stays in sight, and the installation as it is. -/
theorem passes_makeBuildDir (phase : Phase) (n : Nat) : Passes (lib.Gate c o w₀)
    (lib.Working c o w₀ n) (mapError BuildError.io (ensureDir (phase.buildDir lib c.deps)))
    (lib.Working c o w₀ n) o := by
  apply passes_mapError
  intro past w start
  have cwd : w.cwd = w₀.cwd := start.recorded.cwd
  obtain ⟨es, recorded, changes⟩ := records_ensureDir (phase.buildDir lib c.deps) o w
  have place : (phase.buildDir lib c.deps).place w₀.cwd =
      ofText (lib.workName phase) :: c.deps.place w₀.cwd := Path.place_div (isName_work lib phase) _
  have calm : lib.Secluded c o w₀ → Moved (Calm (c.layout.places w₀.cwd) (c.deps.place w₀.cwd)) w
      ((ensureDir (phase.buildDir lib c.deps)).run o w).2 := by
    intro secluded
    refine (calm_ensureDir ?_ (fun d hd l => secluded.apart_work hd) cwd ?_).imp fun _ made => made.1
    · exact Path.descends_div (isName_work lib phase) (secluded.descends c.deps (by simp))
    · rw [place]
      exact start.linkless secluded
  refine ⟨es, recorded, gates_of_changes start.recorded recorded changes
    fun secluded => (calm secluded).imp fun _ h => h.1, fun _ _ => ?_⟩
  obtain ⟨succeeded, count⟩ := start.still changes
  refine ⟨start.recorded.trans recorded, succeeded, count, ?_, fun secluded =>
    (calm secluded).now.2 (start.linkless secluded)⟩
  rcases start.marked with seen | ⟨e, he, unmarks⟩
  · exact .inl ((moves_ensureDir _ o w rfl).now.thins.leadsSomewhere seen)
  · exact .inr ⟨e, List.mem_append_right _ he, unmarks⟩

/-- One program of a compile is run. -/
theorem passes_run (step : String) (k : Command) (n : Nat) : Passes (lib.Gate c o w₀)
    (lib.Working c o w₀ n) (Cmake.run step k) (lib.Working c o w₀ (n + 1)) o := by
  intro past w start
  obtain ⟨recorded, succeeds⟩ := recorded_run (o := o) (w := w) step k
  refine ⟨_, recorded, gates_singleton ⟨start.recorded.leaves, start.succeeded, start.marked⟩,
    fun x done => ?_⟩
  obtain ⟨out, spawned, success⟩ := succeeds done
  have now : ((Cmake.run step k).run o w).2.volume = out.volume := by
    rw [recorded.leaves, spawned]
    rfl
  refine ⟨start.recorded.trans recorded, fun e he => ?_, ?_, ?_, fun secluded => ?_⟩
  · rcases List.mem_cons.1 he with rfl | he
    · exact ⟨out, spawned, success⟩
    · exact start.succeeded e he
  · rw [commands_append, List.length_append, start.count]
    rfl
  · -- Either the marker is still there, or this program has taken it away, or an earlier one had.
    rw [now]
    rcases start.marked with seen | ⟨e, he, unmarks⟩
    · cases after : lib.isFetched c w₀.cwd out.volume with
      | true => exact .inl rfl
      | false => exact .inr ⟨_, List.mem_cons_self, by rw [spawned]; exact ⟨seen, after⟩⟩
    · exact .inr ⟨e, List.mem_append_right _ he, unmarks⟩
  · rw [now]
    exact secluded.children _ _ _ _ spawned (start.linkless secluded)

theorem passes_compilePhase (phase : Phase) (step : String) (a : Arguments) (env : Environ)
    (n : Nat) : Passes (lib.Gate c o w₀) (lib.Working c o w₀ n)
      (compilePhase lib c phase step a env) (lib.Working c o w₀ (n + 2)) o :=
  (passes_makeBuildDir phase n).bind fun _ => (passes_run step _ n).bind fun _ => passes_run step _ _

theorem passes_view (n : Nat) : Passes (lib.Gate c o w₀) (lib.Working c o w₀ n)
    (Action.view : Action BuildError View) (lib.Working c o w₀ n) o := passes_still fun _ => rfl

theorem passes_compile : Passes (lib.Gate c o w₀) (lib.Working c o w₀ 0) (lib.compile c)
    (lib.Working c o w₀ (2 * (phases lib c).length)) o := by
  unfold compile phases
  cases lib with
  | brotli => exact (passes_view 0).bind fun _ => passes_compilePhase _ _ _ _ 0
  | zlib =>
    cases c.target.filter (· ≠ c.host.os) with
    | none => exact (passes_view 0).bind fun _ => passes_compilePhase _ _ _ _ 0
    | some target =>
      exact (passes_view 0).bind fun _ => (passes_compilePhase _ _ _ _ 0).bind fun _ =>
        (passes_view 2).bind fun _ => passes_compilePhase _ _ _ _ 2

/-- Installing only changes files, and it comes after all programs. -/
theorem passes_install : Passes (lib.Gate c o w₀) (lib.Working c o w₀ (2 * (phases lib c).length))
    (lib.install c) (fun _ _ => True) o := by
  refine passes_of_records (records_install lib c) ?_ fun _ _ _ _ _ _ _ _ => trivial
  intro past w start earlier e changes change
  cases e with
  | requested rs => exact change.elim
  | started => exact change.elim
  | changed u => exact fun _ => .inr (start.still changes)

end Stages

theorem gates_build (unbuilt : lib.isBuilt c w.toView = false) :
    (∀ w', (lib.build c).run o w ≠ (.ok .alreadyBuilt, w')) ∧
      ∃ es, Recorded es w ((lib.build c).run o w).2 ∧ Gates (lib.Gate c o w) [] es := by
  have stages : Passes (lib.Gate c o w) (fun past w' => past = [] ∧ w' = w) (do
      mapError BuildError.io (makeRoots c)
      discard (lib.source.acquire c.deps)
      lib.compile c
      lib.install c
      return BuildStatus.built) (fun _ _ => True) o :=
    (passes_mapError _ passes_makeRoots).bind fun _ => passes_acquire.bind fun _ =>
      passes_compile.bind fun _ => passes_install.bind fun _ => passes_still fun _ => rfl
  rw [run_build, unbuilt]
  constructor
  · intro w' run
    obtain ⟨_, w₁, _, run⟩ := run_bind_ok.1 run
    obtain ⟨_, w₂, _, run⟩ := run_bind_ok.1 run
    obtain ⟨_, w₃, _, run⟩ := run_bind_ok.1 run
    obtain ⟨_, w₄, _, run⟩ := run_bind_ok.1 run
    cases run
  · obtain ⟨es, recorded, gates, _⟩ := stages [] w ⟨rfl, rfl⟩
    exact ⟨es, recorded, gates⟩

/-- A build has nothing to do exactly if everything is installed, and then it does nothing. All that
any other build does comes after what must have come before. -/
theorem build_gated (lib : Library) (c : Config) (o : Outside) (w : World) :
    ((∃ w', (lib.build c).run o w = (.ok .alreadyBuilt, w')) ↔ c.updating w.toView = false ∧
      ∀ p ∈ (lib.artifacts c.targetOs).paths c.layout, w.leadsSomewhere p = true) ∧
    (∀ w', (lib.build c).run o w = (.ok .alreadyBuilt, w') → w' = w) ∧
    ∃ es, Recorded es w ((lib.build c).run o w).2 ∧ ∀ later e earlier,
      es = later ++ e :: earlier → lib.Gate c o w earlier e := by
  have built_iff : lib.isBuilt c w.toView = true ↔ c.updating w.toView = false ∧
      ∀ p ∈ (lib.artifacts c.targetOs).paths c.layout, w.leadsSomewhere p = true := by
    unfold isBuilt
    rw [Bool.and_eq_true, Bool.not_eq_true', List.all_eq_true]
  cases built : lib.isBuilt c w.toView with
  | true =>
    have run : (lib.build c).run o w = (.ok .alreadyBuilt, w) := by rw [run_build, if_pos built]
    refine ⟨iff_of_true ⟨w, run⟩ (built_iff.1 built), fun w' h => ?_, [], ?_, ?_⟩
    · rw [run] at h
      cases h
      rfl
    · rw [run]
      exact .refl w
    · intro later e earlier h
      simp at h
  | false =>
    obtain ⟨other, es, recorded, gates⟩ := gates_build (o := o) built
    have missing : ¬ (c.updating w.toView = false ∧
        ∀ p ∈ (lib.artifacts c.targetOs).paths c.layout, w.leadsSomewhere p = true) := by
      intro all
      rw [built_iff.2 all] at built
      cases built
    refine ⟨iff_of_false (fun h => h.elim other) missing, fun w' h => absurd h (other w'), es,
      recorded, fun later e earlier h => ?_⟩
    rw [← List.append_nil earlier]
    exact gates later e earlier h

section Sample

/-- The prefix of zlib has all its artifacts, and nothing is installed. -/
def readyWorld : World :=
  zlibWorld <| prefixEntries [("lib/libz.so.1.2.11", text), ("lib/libz.so.1", text),
    ("lib/libz.so", text)]

theorem build_gated_ready :
    ((zlib.build (sample .linux)).run quiet readyWorld).1.toOption = some .built ∧
    ∃ es, Recorded es readyWorld ((zlib.build (sample .linux)).run quiet readyWorld).2 ∧
      ∀ later u earlier, es = later ++ .changed u :: earlier → (commands earlier).length < 2 →
        SameIn [["Lib", "i"].map ofText, ["Bin", "i"].map ofText]
          (leaves readyWorld.volume earlier) u := by
  have secluded : zlib.Secluded (sample .linux) quiet readyWorld := by
    refine ⟨upright_of_entries (by decide +kernel), by decide +kernel, by decide, by decide,
      by decide, fun p _ => linkless_of_linkFree (by decide +kernel) _, ?_, ?_⟩
    · intro cmd l v out spawned free
      cases spawned
      exact free
    · intro b accepted
      have digest : zlib.source.sha256 = some "" := congrArg some (accepted _ rfl).symm
      exact absurd digest (by decide)
  obtain ⟨_, _, es, recorded, gates⟩ := build_gated zlib (sample .linux) quiet readyWorld
  refine ⟨by decide +kernel, es, recorded, fun later u earlier split few => ?_⟩
  rcases gates later _ earlier split secluded with same | ⟨_, all⟩
  · exact same
  · rw [all] at few
    exact absurd few (by decide)

/-- Where the steps of a path lead if no link stands on them. -/
def cleaned (cwd : Location) (p : Path) : Location :=
  p.steps.foldl (fun d s => if s = [Bytes.dot, Bytes.dot] then d.tail else s :: d)
    (startOf cwd p.bytes)

/-- Files are installed below the root and apart from the dependencies, and no link is passed. -/
def Tidy (c : Config) (w : World) : Prop :=
  (∀ p ∈ [c.layout.lib, c.layout.bin], p.isAbsolute = false ∧ p.Descends) ∧
    w.volume.linkFree = true ∧ ∀ p ∈ [c.layout.libDir, c.layout.binDir],
      ¬ Below (cleaned w.cwd p) (cleaned w.cwd c.deps) ∧
        ¬ Below (cleaned w.cwd c.deps) (cleaned w.cwd p)

instance (c : Config) (w : World) : Decidable (Tidy c w) :=
  inferInstanceAs (Decidable (_ ∧ _ ∧ _))

/-- The newest event is a change to the entry at a place, and fewer programs have been started. -/
def Early (v : Volume) (l : Location) (programs : Nat) : List Event → Prop
  | .changed u :: earlier =>
    (commands earlier).length < programs ∧ u.lookup l ≠ (leaves v earlier).lookup l
  | _ => False

instance (v : Volume) (l : Location) (programs : Nat) (es : List Event) :
    Decidable (Early v l programs es) :=
  match es with
  | .changed _ :: _ => inferInstanceAs (Decidable (_ ∧ _))
  | .requested _ :: _ | .started .. :: _ | [] => isFalse id

/-- Before all its programs have been started, a build changes a name in the library directory. -/
def Meddles (c : Config) (o : Outside) (w : World) (n : String) : Prop :=
  ∃ es ∈ ((zlib.build c).run o w).2.trace.tails,
    Early w.volume (ofText n :: cleaned w.cwd c.layout.libDir) (2 * (phases zlib c).length) es

instance (c : Config) (o : Outside) (w : World) (n : String) : Decidable (Meddles c o w n) :=
  inferInstanceAs (Decidable (∃ es ∈ _, _))

def libWorld : World := zlibWorld [("/i", .dir), ("/i/Lib", .dir)]

/-- Building puts a link to the library directory where the dependencies were. -/
def relinking : Outside where
  exchange := quiet.exchange
  digest := quiet.digest
  archive := quiet.archive
  spawn k _ v := .ok ⟨if k.program = "make" then
      (worldOf [("/i", .dir), ("/i/Lib", .dir), ("/d", linkTo "/i/Lib")]).volume else v, [], .success⟩

/-- Missing names before a step that leads up, on the path to the dependencies or to the root, and
dependencies that a program has made a link. -/
theorem build_meddles :
    (Tidy { sample .linux with deps := "/i/Lib/x/../../../d" } libWorld ∧
      Meddles { sample .linux with deps := "/i/Lib/x/../../../d" } quiet libWorld "x") ∧
    (Tidy { sample .linux with layout := ⟨"/i/Lib/x/../..", "Lib", "Bin"⟩ } libWorld ∧
      Meddles { sample .linux with layout := ⟨"/i/Lib/x/../..", "Lib", "Bin"⟩ } quiet libWorld
        "x") ∧
    (Tidy { sample .linux with target := some .windows } libWorld ∧
      Meddles { sample .linux with target := some .windows } relinking libWorld
        "zlib-1.2.11.target.build") := by
  decide +kernel

end Sample

end Library
end PinnedDeps
