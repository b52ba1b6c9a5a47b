import PinnedDeps.Library.Build
import PinnedDeps.Proofs.Action.Run

/-!
Compiling a library. Its build directories are made and programs are run; whatever relation both of
these keep, the whole keeps.
-/
namespace PinnedDeps

open PinnedDeps.Action

variable {o : Outside} {w : World} {R : Volume → Volume → Prop}

namespace Cmake

theorem run_start (c : Command) : (start c).run o w =
    match o.spawn c w.cwd w.volume with
    | .error cause => (.error (.spawn c.program cause),
        { w with trace := .started c w.volume (.error cause) :: w.trace })
    | .ok out => (.ok out, { w with
        volume := out.volume, output := w.output ++ out.output,
        trace := .started c w.volume (.ok out) :: w.trace }) := by
  unfold start
  show (match o.spawn c w.cwd w.volume with
    | .error cause => throw (.spawn c.program cause)
    | .ok out => _ : Action BuildError Outcome).run o { w with
      trace := .started c w.volume (o.spawn c w.cwd w.volume) :: w.trace } = _
  cases o.spawn c w.cwd w.volume <;> rfl

variable (hr : ∀ v, R v v) (ht : ∀ u v x, R u v → R v x → R u x)
  (children : ∀ cmd l v out, o.spawn cmd l v = .ok out → R v out.volume)
include hr ht children

theorem moved_run (step : String) (c : Command) : Moved R w ((run step c).run o w).2 := by
  refine Moved.bind ht ?_ fun out w₁ _ => ?_
  · rw [run_start]
    cases h : o.spawn c w.cwd w.volume with
    | error cause => exact ⟨rfl, hr _, [_], rfl, by simp⟩
    | ok out => exact ⟨rfl, children _ _ _ _ h, [_], rfl, by simp⟩
  · split
    · exact moves_pure hr _ o w₁ rfl
    · exact moves_throw hr _ o w₁ rfl

theorem moved_configureAndInstall (p : Programs) (step : String) (a : Arguments) (dir : Path)
    (env : Environ) (made : Moved R w ((ensureDir dir).run o w).2) :
    Moved R w ((configureAndInstall p step a dir env).run o w).2 := by
  refine Moved.bind ht made fun _ w₁ _ => ?_
  exact Moved.bind ht (moved_run hr ht children step _) fun _ w₂ _ => moved_run hr ht children step _

end Cmake

namespace Library

theorem moved_compile (lib : Library) (c : Config) (hr : ∀ v, R v v)
    (ht : ∀ u v x, R u v → R v x → R u x)
    (children : ∀ cmd l v out, o.spawn cmd l v = .ok out → R v out.volume)
    (made : ∀ (phase : Phase) w₁, w₁.cwd = w.cwd →
      Moved R w₁ ((ensureDir (phase.buildDir lib c.deps)).run o w₁).2) :
    Moved R w ((lib.compile c).run o w).2 := by
  have phases : ∀ {phase step a env w₁}, w₁.cwd = w.cwd →
      Moved R w₁ ((compilePhase lib c phase step a env).run o w₁).2 := fun here =>
    Cmake.moved_configureAndInstall hr ht children _ _ _ _ _ (made _ _ here)
  have viewed : ∀ {f : View → Action BuildError Unit} {w₁}, Moved R w₁ ((f w₁.toView).run o w₁).2 →
      Moved R w₁ ((Action.view >>= f).run o w₁).2 := fun next => next
  unfold compile
  split
  · exact viewed <| (phases rfl).bind ht fun _ w₁ run =>
      viewed (phases (Moved.ended (phases rfl) run).cwd)
  · exact viewed (phases rfl)
  · exact viewed (phases rfl)

end Library
end PinnedDeps
