import PinnedDeps.Proofs.Library.TargetPhase
import PinnedDeps.Proofs.Toolchain.Override

/-!
Configured tools. A variable that is set to text names the tool, also if the text is empty, and the
fallback names it where the variable is unset. A value that is no text is passed over as if the
variable were unset: the tool is then the fallback, unless both are looked up as the same program.
-/
namespace PinnedDeps

open PinnedDeps.Action Cmake
open Bytes (ofText)

namespace Lookup

variable {view : View} {env base : Environ} {k : Bytes}

/-- How a tool follows from what its variable holds. -/
structure Configures (view : View) (env : Environ) (own : Option Bytes) (fallback : String)
    (value : Bytes) : Prop where
  /-- The value of the variable, or the fallback if there is none, has been looked up. -/
  honoured : value = found view env (own.getD (ofText fallback)) ↔ ∀ b ∈ own,
    (Bytes.toText? b).isSome ∨
      ∃ p, program? view env ⟨b⟩ = some p ∧ ofText p.shown = found view env (ofText fallback)
  passedOver : ∀ b ∈ own, Bytes.toText? b = none → value = found view env (ofText fallback)

/-- What a text is looked up as is text. -/
theorem toText?_found (view : View) (env : Environ) (s : String) :
    (Bytes.toText? (found view env (ofText s))).isSome = true := by
  rw [← ofText_resolve, Bytes.toText?_ofText]
  rfl

/-- What is no text is looked up as what a text is only if there is a program of that name. -/
theorem found_eq_iff {b : Bytes} (garbled : Bytes.toText? b = none) (s : String) :
    found view env (ofText s) = found view env b ↔
      ∃ p, program? view env ⟨b⟩ = some p ∧ ofText p.shown = found view env (ofText s) := by
  constructor
  · intro same
    have text := toText?_found view env s
    rw [same] at text
    unfold found at same text
    cases place : program? view env ⟨b⟩ with
    | none =>
      rw [place] at text
      have kept : ((none : Option Path).map fun p => ofText p.shown).getD b = b := rfl
      rw [kept, garbled] at text
      cases text
    | some p =>
      rw [place] at same
      exact ⟨p, rfl, same.symm⟩
  · rintro ⟨p, place, same⟩
    rw [← same]
    unfold found
    rw [place]
    rfl

theorem configures_textD (view : View) (env base : Environ) (k : Bytes) (fallback : String) :
    Configures view env (base.get? k) fallback (ofText (resolve view env (base.textD k fallback))) := by
  rw [ofText_resolve]
  unfold Environ.textD Environ.text?
  cases base.get? k with
  | none => exact ⟨⟨fun _ => nofun, fun _ => rfl⟩, nofun⟩
  | some b =>
    cases read : Bytes.toText? b with
    | some s =>
      have same : ofText s = b := Bytes.ofText_of_toText? read
      refine ⟨⟨fun _ => ?_, fun _ => ?_⟩, ?_⟩
      · rintro _ ⟨⟩
        exact .inl (by rw [read]; rfl)
      · simp [read, same]
      · rintro _ ⟨⟩ garbled
        rw [read] at garbled
        cases garbled
    | none =>
      -- The code takes the fallback here, so the law holds only if both are found at one place.
      refine ⟨?_, fun _ _ _ => by simp [read]⟩
      simpa [read] using found_eq_iff read fallback

end Lookup

open Lookup (Configures configures_textD)

theorem Tool.resolve_pinCompilers {t : Tool} (other : t ∉ Environ.compilers) (view : View)
    (env : Environ) : t.resolve view (env.pinCompilers view) = t.resolve view env :=
  Tool.resolve_congr (Environ.get?_pinCompilers_other (Tool.var_ne_compiler other))
    Environ.get?_path_pinCompilers

namespace Library

variable {lib : Library} {c : Config} {o : Outside} {w : World}

/-- The tools that the last phase of a compile defines. -/
def lastTools (lib : Library) (c : Config) : List (String × Tool) :=
  match lib with
  | .zlib => Arguments.binutils ++ Arguments.platformTools c.targetOs
  | .brotli => Arguments.binutils

theorem get?_brotliArguments {view : View} {env : Environ} {e : String × Tool}
    (he : e ∈ Arguments.binutils) :
    (brotliArguments view c env).get? e.1 = some (e.2.resolve view env) := by
  have told (dir pre : Path) : (Arguments.releaseWithBinutils view dir pre env).get? e.1 =
      some (e.2.resolve view env) := Arguments.get?_defineTools_of_mem (by decide) he
  have other : ∀ e ∈ Arguments.binutils, e.1 ≠ "CMAKE_SYSTEM_PROCESSOR" ∧
      e.1 ≠ "CMAKE_CROSSCOMPILING" ∧ e.1 ≠ "CMAKE_SYSTEM_NAME" := by decide
  obtain ⟨processor, crossing, system⟩ := other e he
  unfold brotliArguments
  cases c.target with
  | none => simp only [Arguments.get?_define, if_neg processor, if_neg crossing, told]
  | some target =>
    simp only [Arguments.get?_define, if_neg processor, if_neg crossing, if_neg system, told]

theorem targetOs_of_cross {target : Os} (cross : c.target.filter (· ≠ c.host.os) = some target) :
    c.targetOs = target := by
  have named := (Option.filter_eq_some_iff.1 cross).1
  simp [Config.targetOs, named]

theorem targetOs_of_native (native : c.target.filter (· ≠ c.host.os) = none) :
    c.targetOs = c.host.os := by
  unfold Config.targetOs
  cases named : c.target with
  | none => rfl
  | some target => simpa [named, Option.filter] using native

theorem plain_lastTools (lib : Library) (c : Config) :
    ∀ e ∈ lastTools lib c, IsKey e.1 ∧ e.2 ∉ Environ.compilers := by
  unfold lastTools
  cases lib with
  | brotli =>
    show ∀ e ∈ Arguments.binutils, IsKey e.1 ∧ e.2 ∉ Environ.compilers
    decide
  | zlib => cases c.targetOs <;> decide

/-- What the programs of a round are given follows from how the tools are configured: the compilers in
their environment, the others in the definitions of the configure step. -/
structure Follows (view : View) (env : Environ) (tools : List (String × Tool)) (r : Round) : Prop where
  compilers : ∀ t ∈ Environ.compilers, ∃ value, r.environ.get? (ofText t.var) = some value ∧
    Configures view env (env.get? (ofText t.var)) t.fallback value
  others : ∀ e ∈ tools, ∃ value, r.arguments.get? e.1 = some value ∧
    (e.1, value) ∈ definitions r.arguments.toList ∧
    Configures view env (env.get? (ofText e.2.var)) e.2.fallback (ofText value)

/-- A round in the environment of the build, whose definitions of tools are looked up there. -/
theorem follows_of_pinned {view : View} {r : Round} (environ : r.environ = c.env.pinCompilers view)
    (told : ∀ e ∈ lastTools lib c,
      r.arguments.get? e.1 = some (e.2.resolve view (c.env.pinCompilers view))) :
    Follows view c.env (lastTools lib c) r where
  compilers t ht := by
    refine ⟨_, environ ▸ Environ.get?_pinCompilers_of_mem ht, ?_⟩
    rw [← Lookup.ofText_resolve]
    exact configures_textD view c.env c.env _ t.fallback
  others e he := by
    obtain ⟨key, plain⟩ := plain_lastTools lib c e he
    have defined := told e he
    rw [Tool.resolve_pinCompilers plain] at defined
    exact ⟨_, defined, Arguments.mem_definitions_toList key defined,
      configures_textD view c.env c.env _ e.2.fallback⟩

theorem follows_plan {r : View × Round} (hr : r ∈ plan lib c o w) (later : r.2.phase ≠ .host) :
    Follows r.1 c.env (lastTools lib c) r.2 := by
  unfold plan at hr
  cases lib with
  | brotli =>
    rw [List.mem_singleton] at hr
    subst hr
    exact follows_of_pinned rfl fun e he => get?_brotliArguments he
  | zlib =>
    cases cross : c.target.filter (· ≠ c.host.os) with
    | none =>
      rw [cross, List.mem_singleton] at hr
      subst hr
      refine follows_of_pinned rfl fun e he => Arguments.get?_release _ _ c.host.os ?_
      exact targetOs_of_native cross ▸ he
    | some target =>
      rw [cross] at hr
      rcases List.mem_pair.1 hr with rfl | rfl
      · exact absurd rfl later
      · refine follows_of_pinned rfl fun e he => ?_
        have own : e ∈ Arguments.binutils ++ Arguments.platformTools target := targetOs_of_cross cross ▸ he
        exact get?_targetRound_of_mem c target _ _ (mem_roundDefinitions c target _ own)

/-- The keys of the tools that only the host has are none that the target phase sets. -/
theorem host_tool_not_targetKey (host target : Os) : ∀ e ∈ Arguments.platformTools host,
    e ∉ Arguments.binutils ++ Arguments.platformTools target → e.1 ∉ targetKeys target := by
  cases host <;> cases target <;> decide

/-- The target phase keeps the definitions of the tools that only the host has. -/
theorem get?_plan_kept {r : View × Round} (hr : r ∈ plan lib c o w) (later : r.2.phase = .target)
    {e : String × Tool} (he : e ∈ Arguments.platformTools c.host.os) (other : e ∉ lastTools lib c) :
    r.2.arguments.get? e.1 = some (e.2.resolve w.toView (c.env.forHost w.toView c.host.os)) := by
  unfold plan at hr
  split at hr
  · rename_i target cross
    rcases List.mem_pair.1 hr with rfl | rfl
    · cases later
    · have free := host_tool_not_targetKey c.host.os target e he (targetOs_of_cross cross ▸ other)
      refine (get?_targetRound_other c target _ _ free).trans ?_
      exact Arguments.get?_release _ _ c.host.os (List.mem_append_right _ he)
  · rw [List.mem_singleton] at hr
    subst hr
    cases later

/-- Whatever a tool's variable holds, the programs of a compile are given what follows from it, and so
is the environment for the host, where a compiler is looked up once more. A tool that is set to text is
used; where it is set to other bytes, the fallback is. -/
theorem tools_configured (lib : Library) (c : Config) (o : Outside) (w : World) :
    let rounds := plan lib c o w
    (Issues (rounds.flatMap fun r => r.2.commands lib c) (lib.compile c) o w ∧
      rounds.map (fun r => r.2.phase) = phases lib c) ∧
    (∀ r ∈ rounds, r.2.phase ≠ .host → Follows r.1 c.env (lastTools lib c) r.2) ∧
    (∀ r ∈ rounds, r.2.phase = .target → ∀ e ∈ Arguments.platformTools c.host.os, e ∉ lastTools lib c →
      r.2.arguments.get? e.1 = some (e.2.resolve w.toView (c.env.forHost w.toView c.host.os))) ∧
    ∀ (view : View) (base : Environ) (host : Os), ∀ t ∈ hostTools host, ∃ value,
      Configures view base (base.get? (ofText t.hostVar)) t.fallback value ∧
      (base.forHost view host).get? (ofText t.var) =
        some (if t ∈ Environ.compilers then Lookup.found view base value else value) := by
  refine ⟨⟨issues_plan lib c o w, phases_plan lib c o w⟩, fun r hr later => follows_plan hr later,
    fun r hr later e he other => get?_plan_kept hr later he other, fun view base host t ht => ?_⟩
  refine ⟨_, configures_textD view base base _ t.fallback, ?_⟩
  split
  · rename_i compiler
    rw [← Lookup.ofText_resolve]
    exact Environ.get?_forHost_compiler compiler
  · rename_i other
    exact Environ.get?_forHost_tool ht other

section Sample

/-- A build for Linux on macOS whose tools are named by a byte that no text has, but for a linker without
a name. -/
def garbled : Config := { sample .macos with target := some .linux }.withEnv <| .ofPairs
  [(ofText "CC", [0xff]), (ofText "AR", [0xff]), (ofText "LD", []), (ofText "ALUSUS_HOST_AR", [0xff])]

theorem found_garbled (view : View) : ∀ s ∈ ["clang", "ar", ""],
    Lookup.found view garbled.env (ofText s) = ofText s := by
  have unset : garbled.env.get? (ofText "PATH") = none := by decide +kernel
  have single : ∀ s ∈ ["clang", "ar", ""], ¬ 1 < (⟨ofText s⟩ : Path).components.length := by
    decide +kernel
  exact fun s hs => Lookup.found_of_unset unset (single s hs)

theorem tools_configured_garbled : ∃ first second : Round,
    Issues (first.commands zlib garbled ++ second.commands zlib garbled) (zlib.compile garbled) quiet
      (worldOf []) ∧
    second.environ.get? (ofText "CC") = some (ofText "clang") ∧
    second.arguments.get? "CMAKE_AR" = some "ar" ∧ second.arguments.get? "CMAKE_LINKER" = some "" ∧
    (second.arguments.get? "CMAKE_OTOOL").isSome ∧
    (garbled.env.forHost (worldOf []).toView .macos).get? (ofText "AR") = some (ofText "ar") := by
  obtain ⟨⟨issues, -⟩, follows, kept, host⟩ := tools_configured zlib garbled quiet (worldOf [])
  have cross : garbled.target.filter (· ≠ garbled.host.os) = some .linux := by decide
  rw [plan_of_cross cross] at issues follows kept
  generalize ((hostPhase garbled (worldOf []).toView).run quiet (worldOf [])).2.toView = between at *
  let second := targetRound garbled .linux (hostRound garbled (worldOf []).toView).arguments between
  have given : Follows between garbled.env (lastTools zlib garbled) second :=
    follows (between, second) (List.mem_cons_of_mem _ List.mem_cons_self) nofun
  have text : ∀ {s t : String}, ofText s = ofText t → some s = some t := fun same =>
    congrArg some (Bytes.ofText_inj.1 same)
  refine ⟨_, second, by simpa using issues, ?_, ?_, ?_, ?_, ?_⟩
  · obtain ⟨value, held, cc⟩ := given.compilers .cc (by decide)
    refine held.trans (congrArg some ?_)
    exact (cc.passedOver [0xff] (by decide +kernel) rfl).trans (found_garbled between "clang" (by simp))
  · obtain ⟨value, told, -, ar⟩ := given.others ("CMAKE_AR", .ar) (by decide)
    refine told.trans (text ?_)
    exact (ar.passedOver [0xff] (by decide +kernel) rfl).trans (found_garbled between "ar" (by simp))
  · obtain ⟨value, told, -, ld⟩ := given.others ("CMAKE_LINKER", .ld) (by decide)
    have empty : garbled.env.get? (ofText Tool.ld.var) = some (ofText "") := by decide +kernel
    have own : ofText value = Lookup.found between garbled.env (ofText "") := by
      have law := ld.honoured.2 fun b hb => .inl ?_
      · rw [empty] at law
        exact law
      · obtain rfl : ofText "" = b := Option.some.inj (empty.symm.trans hb)
        rfl
    exact told.trans (text (own.trans (found_garbled between "" (by simp))))
  · rw [kept (between, second) (List.mem_cons_of_mem _ List.mem_cons_self) rfl ("CMAKE_OTOOL", .otool)
      (by decide) (by decide)]
    rfl
  · obtain ⟨value, ar, held⟩ := host (worldOf []).toView garbled.env .macos .ar (by decide)
    refine held.trans (congrArg some ?_)
    exact (ar.passedOver [0xff] (by decide +kernel) rfl).trans (found_garbled _ "ar" (by simp))

/-- Tools that are set are passed over in the environment of programs, in the definitions and in the
environment for the host, although nothing is found for what they are set to. -/
theorem set_tools_passed_over :
    let run := (zlib.compile garbled).run quiet (worldOf [])
    let view := (worldOf []).toView
    run.1.toOption = some () ∧
      ((commands run.2.trace).getLast?.map fun k => k.environ.get? (ofText "CC")) =
        some (some (ofText "clang")) ∧
      ((commands run.2.trace)[2]?.map fun k => (definitions k.arguments).lookup "CMAKE_AR") =
        some (some "ar") ∧
      (garbled.env.forHost view .macos).get? (ofText "AR") = some (ofText "ar") ∧
      Lookup.found view garbled.env [0xff] = [0xff] := by
  decide +kernel

end Sample

end Library
end PinnedDeps
