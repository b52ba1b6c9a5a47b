import PinnedDeps.Proofs.Library.Prefix
import PinnedDeps.Proofs.Toolchain.Override

/-!
The host phase of a cross build. Its programs are given nothing of the environment but what the
environment for the host is made of, and all later programs are started in another directory.
-/
namespace PinnedDeps

open PinnedDeps.Action Cmake
open Bytes (ofText)

theorem Path.div_right_inj (p : Path) {m n : String} (hm : IsName (Bytes.ofText m))
    (hn : IsName (Bytes.ofText n)) (h : p / m = p / n) : Bytes.ofText m = Bytes.ofText n := by
  have joined : p.join ⟨Bytes.ofText m⟩ = p.join ⟨Bytes.ofText n⟩ := h
  rw [join_of_relative hm.relative, join_of_relative hn.relative] at joined
  split at joined
  · exact List.append_cancel_left (congrArg Path.bytes joined)
  · exact (List.cons.inj (List.append_cancel_left (congrArg Path.bytes joined))).2

def Config.withEnv (c : Config) (env : Environ) : Config := { c with env }

theorem Action.Recorded.unique {es fs : List Event} {w w' : World} (h : Recorded es w w')
    (g : Recorded fs w w') : es = fs := List.append_cancel_right (h.trace.symm.trans g.trace)

namespace Library

variable {c : Config} {o : Outside} {w w' : World} {es fs : List Event} {target : Os}

/-- The programs that were started in the build directory of the host. -/
def hostCommands (c : Config) (es : List Event) : List Command :=
  (commands es).filter fun k => k.directory = Phase.host.buildDir zlib c.deps

theorem hostCommands_append (c : Config) (es fs : List Event) :
    hostCommands c (es ++ fs) = hostCommands c fs ++ hostCommands c es := by
  unfold hostCommands
  rw [commands_append, List.filter_append]

theorem directory_of_round {r : Round} {k : Command} (h : k ∈ r.commands zlib c) :
    k.directory = r.phase.buildDir zlib c.deps := by
  rcases List.mem_cons.1 h with rfl | h
  · rfl
  · rw [List.mem_singleton.1 h]
    rfl

theorem target_ne_host (deps : Path) :
    Phase.target.buildDir zlib deps ≠ Phase.host.buildDir zlib deps := by
  intro same
  have := Path.div_right_inj deps (isName_work zlib .target) (isName_work zlib .host) same
  exact absurd this (by decide +kernel)

theorem hostCommands_of_host {r : Round} (host : r.phase = .host)
    (h : commands es <+: r.commands zlib c) : hostCommands c es = commands es := by
  refine List.filter_eq_self.2 fun k hk => decide_eq_true ?_
  rw [directory_of_round (h.subset hk), host]

theorem hostCommands_of_target {r : Round} (later : r.phase = .target)
    (h : commands es <+: r.commands zlib c) : hostCommands c es = [] := by
  refine List.filter_eq_nil_iff.2 fun k hk same => target_ne_host c.deps ?_
  rw [← later, ← directory_of_round (h.subset hk), of_decide_eq_true same]

/-- The commands in the directory of the host are those of the host phase. -/
theorem compile_hostCommands (cross : c.target = some target) (other : target ≠ c.host.os)
    (o : Outside) (w : World) :
    ∃ es fs, Recorded es w ((hostPhase c w.toView).run o w).2 ∧
      Recorded fs w ((zlib.compile c).run o w).2 ∧ hostCommands c fs = commands es ∧
      commands es <+: (hostRound c w.toView).commands zlib c ∧
      (((zlib.compile c).run o w).1 = .ok () →
        commands es = (hostRound c w.toView).commands zlib c) := by
  obtain ⟨es, recorded, part, whole⟩ := issues_hostPhase c o w
  have same := compileCross_run c target o w
  have kept : hostCommands c es = commands es := hostCommands_of_host rfl part
  rw [compile_of_cross cross other, same, run_bind]
  refine ⟨es, ?_⟩
  rcases run : (hostPhase c w.toView).run o w with ⟨e | x, w₁⟩
  · rw [run] at recorded
    refine ⟨es, recorded, recorded, kept, part, fun ended => ?_⟩
    cases ended
  · rw [run] at recorded whole
    obtain ⟨gs, recorded', part', -⟩ := issues_compilePhase (c := c) (o := o) (w := w₁)
      "zlib (target)" (targetRound c target (hostRound c w.toView).arguments w₁.toView)
    refine ⟨gs ++ es, recorded, recorded.trans recorded', ?_, part, fun _ => whole rfl⟩
    rw [hostCommands_append, kept, hostCommands_of_target rfl part', List.append_nil]

theorem hostRound_agree {a b : Environ} (same : a.AgreeBut (targetVars c.host.os) b) (view : View) :
    hostRound (c.withEnv a) view = hostRound (c.withEnv b) view := by
  have seen : (c.withEnv a).env.forHost view (c.withEnv a).host.os =
      (c.withEnv b).env.forHost view (c.withEnv b).host.os := Environ.forHost_agree same view
  unfold hostRound
  rw [seen]
  rfl

/-- Two environments that differ only in what describes the target give the programs of the host
phase the same, whatever the rest of the world does. Where it does the same, the same of these
programs are started. -/
theorem compile_host_agree (c : Config) {target : Os} (cross : c.target = some target)
    (other : target ≠ c.host.os) {a b : Environ} (same : a.AgreeBut (targetVars c.host.os) b)
    (view : View) :
    (∃ configure make : Command, ∀ env ∈ [a, b], ∀ (o : Outside) (w : World), w.toView = view →
      ∃ es, Recorded es w ((zlib.compile (c.withEnv env)).run o w).2 ∧
        hostCommands c es <+: [configure, make] ∧
        (((zlib.compile (c.withEnv env)).run o w).1 = .ok () →
          hostCommands c es = [configure, make])) ∧
    ∀ (o : Outside) (w : World), w.toView = view →
      ∃ es fs, Recorded es w ((zlib.compile (c.withEnv a)).run o w).2 ∧
        Recorded fs w ((zlib.compile (c.withEnv b)).run o w).2 ∧
        hostCommands c es = hostCommands c fs := by
  have rounds := hostRound_agree same view
  let r := hostRound (c.withEnv a) view
  refine ⟨⟨configureCommand c.programs r.arguments (r.phase.buildDir zlib c.deps) r.environ,
    makeCommand c.programs (r.phase.buildDir zlib c.deps) r.environ, ?_⟩, ?_⟩
  · rintro env henv o w rfl
    have given : hostRound (c.withEnv env) w.toView = r := by
      rcases List.mem_pair.1 henv with rfl | rfl
      · rfl
      · exact rounds.symm
    obtain ⟨es, fs, -, recorded, same, part, whole⟩ :=
      compile_hostCommands (c := c.withEnv env) cross other o w
    rw [given] at part whole
    exact ⟨fs, recorded, same ▸ part, fun ended => same ▸ whole ended⟩
  · rintro o w rfl
    obtain ⟨es, fs, phase, recorded, same, -⟩ :=
      compile_hostCommands (c := c.withEnv a) cross other o w
    obtain ⟨es', fs', phase', recorded', same', -⟩ :=
      compile_hostCommands (c := c.withEnv b) cross other o w
    have once : hostPhase (c.withEnv b) w.toView = hostPhase (c.withEnv a) w.toView := by
      unfold hostPhase
      rw [rounds]
      rfl
    rw [once] at phase'
    have : es = es' := phase.unique phase'
    exact ⟨fs, fs', recorded, recorded', same.trans (this ▸ same'.symm)⟩

/-- The variables in which the environments may differ. -/
example : targetVars .linux = ["CC", "CXX", "AR", "AS", "RANLIB", "NM", "STRIP", "LD",
      "LIBRARY_PATH", "CPATH", "C_INCLUDE_PATH", "CPLUS_INCLUDE_PATH", "PKG_CONFIG_PATH"].map ofText ∧
    targetVars .windows = ["CC", "CXX", "AR", "AS", "RANLIB", "NM", "STRIP", "LD", "RC",
      "LIBRARY_PATH", "CPATH", "C_INCLUDE_PATH", "CPLUS_INCLUDE_PATH", "PKG_CONFIG_PATH"].map ofText ∧
    targetVars .macos = ["CC", "CXX", "AR", "AS", "RANLIB", "NM", "STRIP", "LD", "INSTALL_NAME_TOOL", "OTOOL",
      "LIBRARY_PATH", "CPATH", "C_INCLUDE_PATH", "CPLUS_INCLUDE_PATH", "PKG_CONFIG_PATH"].map ofText := by
  decide

section Sample

def crossed : Config := { sample .linux with target := some .windows }

/-- Points the tools and the libraries of the target to a directory. -/
def pointed : Environ :=
  (Environ.empty.set (ofText "CC") (ofText "/t/cc")).set (ofText "LIBRARY_PATH") (ofText "/t/lib")

theorem compile_host_agree_pointed :
    crossed.target = some .windows ∧ Os.windows ≠ crossed.host.os ∧
      pointed.AgreeBut (targetVars crossed.host.os) .empty ∧ pointed ≠ .empty ∧
      ∃ configure make : Command, ∀ env ∈ [pointed, .empty],
        ∃ es, Recorded es (worldOf []) ((zlib.compile (crossed.withEnv env)).run quiet (worldOf [])).2 ∧
          hostCommands crossed es = [configure, make] := by
  have agree : pointed.AgreeBut (targetVars crossed.host.os) .empty := by
    have cc : ofText "CC" ∈ targetVars crossed.host.os := by decide +kernel
    have libraries : ofText "LIBRARY_PATH" ∈ targetVars crossed.host.os := by decide +kernel
    exact Environ.AgreeBut.set_left (Environ.AgreeBut.set_left (fun _ _ => rfl) cc _) libraries _
  refine ⟨rfl, by decide, agree, by decide +kernel, ?_⟩
  obtain ⟨⟨configure, make, given⟩, -⟩ :=
    compile_host_agree crossed rfl (by decide) agree (worldOf []).toView
  refine ⟨configure, make, fun env henv => ?_⟩
  obtain ⟨es, recorded, -, whole⟩ := given env henv quiet (worldOf []) rfl
  have ends : ∀ env ∈ [pointed, .empty],
      ((zlib.compile (crossed.withEnv env)).run quiet (worldOf [])).1.toOption = some () := by
    decide +kernel
  exact ⟨es, recorded, whole (ok_of_toOption (ends env henv))⟩

end Sample

end Library
end PinnedDeps
