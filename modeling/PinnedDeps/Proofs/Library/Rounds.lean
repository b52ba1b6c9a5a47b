import PinnedDeps.Proofs.Action.Recording
import PinnedDeps.Proofs.Library.Compiling
import PinnedDeps.Proofs.Library.Failing

/-!
The rounds of a compile. Each phase starts two programs, and what they are given is known before it
begins, except that the target phase of a cross build looks its tools up once the host phase has ended.
-/
namespace PinnedDeps

open PinnedDeps.Action Cmake

section Issues

variable {ε ε' : Type} {o : Outside} {w : World} {cs ds : List Command}

/-- A run starts the commands in their order, and all of them if it succeeds. -/
def Issues (cs : List Command) (a : Action ε Unit) (o : Outside) (w : World) : Prop :=
  ∃ es, Recorded es w (a.run o w).2 ∧ commands es <+: cs ∧
    ((a.run o w).1 = .ok () → commands es = cs)

theorem issues_of_changes {a : Action ε Unit} (h : Records Event.IsChange a) : Issues [] a o w := by
  obtain ⟨es, hes, he⟩ := h o w
  have := commands_of_changes he
  exact ⟨es, hes, this ▸ List.prefix_refl _, fun _ => this⟩

theorem Issues.bind {a : Action ε Unit} {f : Unit → Action ε Unit} (h : Issues cs a o w)
    (g : ∀ w₁, a.run o w = (.ok (), w₁) → Issues ds (f ()) o w₁) :
    Issues (cs ++ ds) (a >>= f) o w := by
  obtain ⟨es, hes, part, whole⟩ := h
  unfold Issues
  rw [run_bind]
  rcases run : a.run o w with ⟨e | x, w₁⟩
  · rw [run] at hes
    refine ⟨es, hes, part.trans (List.prefix_append _ _), ?_⟩
    intro h
    cases h
  · rw [run] at hes whole
    obtain ⟨fs, hfs, rest, all⟩ := g w₁ run
    refine ⟨fs ++ es, hes.trans hfs, ?_, fun ended => ?_⟩
    · rw [commands_append, whole rfl]
      exact (List.prefix_append_right_inj cs).2 rest
    · rw [commands_append, whole rfl, all ended]

theorem issues_view {f : View → Action ε Unit} (h : Issues cs (f w.toView) o w) :
    Issues cs (Action.view >>= f) o w := h

/-- A program is started, and the step succeeds only if it ends with success. -/
theorem recorded_run (step : String) (k : Command) :
    Recorded [.started k w.volume (o.spawn k w.cwd w.volume)] w ((Cmake.run step k).run o w).2 ∧
      (((Cmake.run step k).run o w).1 = .ok () →
        ∃ out, o.spawn k w.cwd w.volume = .ok out ∧ out.status = .success) := by
  unfold Cmake.run
  rw [run_bind, run_start]
  cases h : o.spawn k w.cwd w.volume with
  | error cause => exact ⟨⟨rfl, rfl, rfl⟩, fun failed => by cases failed⟩
  | ok out =>
    simp only
    split
    · rename_i success
      exact ⟨⟨rfl, rfl, rfl⟩, fun _ => ⟨out, rfl, success⟩⟩
    · exact ⟨⟨rfl, rfl, rfl⟩, fun failed => by cases failed⟩

theorem issues_run (step : String) (k : Command) : Issues [k] (Cmake.run step k) o w :=
  ⟨_, (recorded_run step k).1, List.prefix_refl [k], fun _ => rfl⟩

end Issues

namespace Library

variable {lib : Library} {c : Config} {o : Outside} {w : World} {target : Os}

/-- One phase, with what its configure step is told and the environment of its programs. -/
structure Round where
  phase : Phase
  arguments : Arguments
  environ : Environ

def Round.commands (lib : Library) (c : Config) (r : Round) : List Command :=
  let dir := r.phase.buildDir lib c.deps
  [configureCommand c.programs r.arguments dir r.environ, makeCommand c.programs dir r.environ]

theorem issues_compilePhase (step : String) (r : Round) : Issues (r.commands lib c)
    (compilePhase lib c r.phase step r.arguments r.environ) o w := by
  have made : Issues [] (mapError BuildError.io (ensureDir (r.phase.buildDir lib c.deps))) o w :=
    issues_of_changes (records_mapError _ (records_ensureDir _))
  exact made.bind fun w₁ _ => (issues_run step _).bind fun w₂ _ => issues_run step _

/-- The phases that a compile goes through. -/
def phases (lib : Library) (c : Config) : List Phase :=
  match lib, c.target.filter (· ≠ c.host.os) with
  | .zlib, some _ => [.host, .target]
  | _, _ => [.native]

theorem getLast_phases (lib : Library) (c : Config) :
    (phases lib c).getLast? = some (Phase.last lib c.target c.host.os) := by
  unfold phases Phase.last isCross
  cases lib with
  | brotli => rfl
  | zlib =>
    cases c.target with
    | none => rfl
    | some t => by_cases h : t = c.host.os <;> simp [Option.filter, h]

/-- What the programs of the host phase are given. -/
def hostRound (c : Config) (view : View) : Round :=
  let env := c.env.forHost view c.host.os
  ⟨.host, zlibArguments view c .host env, env⟩

def hostPhase (c : Config) (view : View) : Action BuildError Unit :=
  let r := hostRound c view
  compilePhase zlib c r.phase "zlib (host)" r.arguments r.environ

theorem compile_of_cross (cross : c.target = some target) (other : target ≠ c.host.os) :
    zlib.compile c = compileCross c target := by
  have named : c.target.filter (· ≠ c.host.os) = some target := by
    simp [cross, Option.filter, other]
  unfold compile
  rw [named]

theorem run_view {α : Type} (f : View → Action BuildError α) :
    (Action.view >>= f).run o w = (f w.toView).run o w := rfl

theorem issues_hostPhase (c : Config) (o : Outside) (w : World) :
    Issues ((hostRound c w.toView).commands zlib c) (hostPhase c w.toView) o w :=
  issues_compilePhase "zlib (host)" (hostRound c w.toView)

/-- What the programs of the target phase are given, after what the host phase was told. -/
def targetRound (c : Config) (target : Os) (told : Arguments) (view : View) : Round :=
  let env := c.env.pinCompilers view
  ⟨.target, zlibTargetArguments view c target told env, env⟩

/-- A cross build goes through the host phase, and if that succeeds through the target phase. What
the second phase is given depends on what the first has left. -/
theorem compileCross_run (c : Config) (target : Os) (o : Outside) (w : World) :
    let between := ((hostPhase c w.toView).run o w).2.toView
    let r := targetRound c target (hostRound c w.toView).arguments between
    (compileCross c target).run o w = (hostPhase c w.toView >>= fun _ =>
      compilePhase zlib c r.phase "zlib (target)" r.arguments r.environ).run o w := by
  unfold compileCross
  rw [run_view]
  show (hostPhase c w.toView >>= fun _ => Action.view >>= fun _ => _).run o w = _
  rw [run_bind, run_bind]
  rcases run : (hostPhase c w.toView).run o w with ⟨e | x, w₁⟩
  · rfl
  · exact run_view _

def nativeRound (lib : Library) (c : Config) (view : View) : Round :=
  let env := c.env.pinCompilers view
  ⟨.native, match lib with
    | .zlib => zlibArguments view c .native env
    | .brotli => brotliArguments view c env, env⟩

/-- The rounds of a compile, each beside what it finds. -/
def plan (lib : Library) (c : Config) (o : Outside) (w : World) : List (View × Round) :=
  match lib, c.target.filter (· ≠ c.host.os) with
  | .zlib, some target =>
    let between := ((hostPhase c w.toView).run o w).2.toView
    let first := hostRound c w.toView
    [(w.toView, first), (between, targetRound c target first.arguments between)]
  | lib, _ => [(w.toView, nativeRound lib c w.toView)]

theorem issues_plan (lib : Library) (c : Config) (o : Outside) (w : World) :
    Issues ((plan lib c o w).flatMap fun r => r.2.commands lib c) (lib.compile c) o w := by
  unfold plan compile
  cases lib with
  | brotli =>
    rw [List.flatMap_singleton]
    exact issues_view (issues_compilePhase "brotli" (nativeRound brotli c w.toView))
  | zlib =>
    cases c.target.filter (· ≠ c.host.os) with
    | none =>
      rw [List.flatMap_singleton]
      exact issues_view (issues_compilePhase "zlib" (nativeRound zlib c w.toView))
    | some target =>
      let between := ((hostPhase c w.toView).run o w).2.toView
      let second := targetRound c target (hostRound c w.toView).arguments between
      have both : Issues ((hostRound c w.toView).commands zlib c ++ second.commands zlib c)
          (hostPhase c w.toView >>= fun _ =>
            compilePhase zlib c second.phase "zlib (target)" second.arguments second.environ) o w :=
        (issues_hostPhase c o w).bind fun w₁ _ => issues_compilePhase "zlib (target)" second
      unfold Issues at both ⊢
      rw [compileCross_run c target o w]
      simpa using both

theorem plan_of_cross {target : Os} (cross : c.target.filter (· ≠ c.host.os) = some target) (o : Outside)
    (w : World) :
    let first := hostRound c w.toView
    let between := ((hostPhase c w.toView).run o w).2.toView
    plan zlib c o w = [(w.toView, first), (between, targetRound c target first.arguments between)] := by
  unfold plan
  rw [cross]

theorem phases_plan (lib : Library) (c : Config) (o : Outside) (w : World) :
    (plan lib c o w).map (fun r => r.2.phase) = phases lib c := by
  unfold plan phases
  cases lib with
  | brotli => rfl
  | zlib => cases c.target.filter (· ≠ c.host.os) <;> rfl

end Library
end PinnedDeps
