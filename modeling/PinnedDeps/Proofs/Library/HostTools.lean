import PinnedDeps.Proofs.Library.TargetPhase

/-!
Lookups repeated. An absolute name is looked up as itself, and so is whatever a name has been looked up as,
if the directories of the search path are absolute. Compilers are then pinned once and for all, and the
tools that the configure step of a host phase is told are those in the environment of its programs.
-/
namespace PinnedDeps

open PinnedDeps.Action Cmake
open Bytes (ofText)

/-- All directories of the search path are absolute. -/
def Environ.Rooted (env : Environ) : Prop :=
  ∀ list ∈ env.get? (ofText "PATH"), ∀ entry ∈ list.splitOn Lookup.listSeparator,
    (⟨entry⟩ : Path).isAbsolute = true

namespace Lookup

variable {view : View} {env : Environ} {name p : Path} {s : String}

/-- Only a relative directory can lie below the home directory. -/
theorem directory_of_absolute {entry : Bytes} (h : (⟨entry⟩ : Path).isAbsolute = true) (home : Path) :
    directory home entry = ⟨entry⟩ := by
  unfold directory Path.components
  rw [if_pos h]

/-- An absolute name is found at no other place. -/
theorem eq_of_absolute (absolute : name.isAbsolute = true) (h : program? view env name = some p) :
    p = name := by
  have place := List.mem_of_find?_eq_some h
  unfold places at place
  by_cases several : 1 < name.components.length
  · rwa [if_pos several, if_pos absolute, List.mem_singleton] at place
  · obtain ⟨list, entry, -, -, rfl⟩ := entry_of_single several h
    exact Path.join_absolute absolute

theorem resolve_of_absolute (absolute : (Path.ofText s).isAbsolute = true) : resolve view env s = s := by
  rw [resolve_eq]
  cases place : program? view env (Path.ofText s) with
  | none => rfl
  | some p =>
    obtain rfl : p = Path.ofText s := eq_of_absolute absolute place
    exact Bytes.lossy_ofText s

/-- In absolute directories programs are found at absolute places. -/
theorem isAbsolute_of_rooted (rooted : env.Rooted) (h : program? view env name = some p) :
    p.isAbsolute = true := by
  by_cases several : 1 < name.components.length
  · exact isAbsolute_of_several several h
  · obtain ⟨list, entry, held, listed, rfl⟩ := entry_of_single several h
    have absolute := rooted list held entry listed
    rw [directory_of_absolute absolute]
    exact Path.isAbsolute_join absolute

/-- What is found is looked up as itself, and so is a name for which nothing is found. -/
theorem resolve_resolve (rooted : env.Rooted) (view : View) (s : String) :
    resolve view env (resolve view env s) = resolve view env s := by
  have once := resolve_eq view env s
  cases place : program? view env (Path.ofText s) with
  | none =>
    have kept : resolve view env s = s := by rw [once, place]; rfl
    rw [kept, kept]
  | some p =>
    have shown : resolve view env s = p.shown := by rw [once, place]; rfl
    rw [shown]
    exact resolve_of_absolute (Path.isAbsolute_shown (isAbsolute_of_rooted rooted place))

end Lookup

namespace Environ

variable {env : Environ} {view : View} {t : Tool}

/-- A pinned compiler is what it has been looked up as, looked up again. -/
theorem resolve_pinned (ht : t ∈ compilers) : t.resolve view (env.pinCompilers view) =
    Lookup.resolve view env (t.resolve view env) := by
  have pinned : (env.pinCompilers view).get? (ofText t.var) = some (ofText (t.resolve view env)) := by
    rw [get?_pinCompilers_of_mem ht, ← Lookup.ofText_resolve]
    rfl
  unfold Tool.resolve
  rw [Tool.program_of_text pinned, Lookup.resolve_congr get?_path_pinCompilers]
  rfl

theorem pinCompilers_pinCompilers (rooted : env.Rooted) (view : View) :
    (env.pinCompilers view).pinCompilers view = env.pinCompilers view := by
  have again : (env.pinCompilers view).pins view = env.pins view := by
    refine List.map_congr_left fun t ht => ?_
    rw [resolve_pinned ht]
    exact congrArg (fun s => (ofText t.var, ofText s)) (Lookup.resolve_resolve rooted view _)
  refine ext_get? fun k => ?_
  rw [get?_pinCompilers, again, get?_pinCompilers, ← Option.or_assoc, Option.or_self]

end Environ

namespace Library

variable {c : Config} {view : View}

theorem tool_of_host {host : Os} : ∀ e ∈ Arguments.binutils ++ Arguments.platformTools host,
    e.2 ∈ hostTools host ∧ e.2 ∉ Environ.compilers := by
  cases host <;> decide

/-- A tool of the environment for the host is looked up as what its variable holds. -/
theorem resolve_forHost {host : Os} {base : Environ} {t : Tool} (rooted : base.Rooted)
    (ht : t ∈ hostTools host) (other : t ∉ Environ.compilers) :
    (base.forHost view host).get? (ofText t.var) =
      some (ofText (t.resolve view (base.forHost view host))) := by
  have held : (base.forHost view host).get? (ofText t.var) =
      some (ofText (Environ.hostProgram view base t)) := Environ.get?_forHost_tool ht other
  have path : (base.forHost view host).get? (ofText "PATH") = base.get? (ofText "PATH") :=
    Environ.get?_forHost_kept (path_not_targetVar host)
  unfold Tool.resolve
  rw [Tool.program_of_text held, Lookup.resolve_congr path, held]
  unfold Environ.hostProgram
  rw [Lookup.resolve_resolve rooted]

/-- The tools that a configure step is told, behind the source directory, are those in the environment
of the two programs. -/
structure Equipped (host : Os) (configure make : Command) : Prop where
  keys : (definitions configure.arguments.tail).map Prod.fst = hostKeys host
  tools : ∀ e ∈ Arguments.binutils ++ Arguments.platformTools host, ∃ value,
    (definitions configure.arguments.tail).lookup e.1 = some value ∧
      ∀ k ∈ [configure, make], k.environ.get? (ofText e.2.var) = some (ofText value)

theorem equipped_hostRound (rooted : c.env.Rooted) (view : View) :
    let r := hostRound c view
    let dir := Phase.host.buildDir zlib c.deps
    Equipped c.host.os (configureCommand c.programs r.arguments dir r.environ)
      (makeCommand c.programs dir r.environ) := by
  intro r dir
  have told : definitions r.arguments.toList.tail = r.arguments.defines :=
    Arguments.definitions_tail (names_hostRound c view).keys (definition?_generator_hostRound c view)
  constructor
  case keys =>
    show (definitions r.arguments.toList.tail).map Prod.fst = _
    rw [told]
    exact keys_hostRound c view
  case tools =>
    intro e he
    obtain ⟨listed, other⟩ := tool_of_host e he
    have held : r.environ.get? (ofText e.2.var) = some (ofText (e.2.resolve view r.environ)) :=
      resolve_forHost rooted listed other
    refine ⟨e.2.resolve view r.environ, ?_, fun k hk => ?_⟩
    · show (definitions r.arguments.toList.tail).lookup e.1 = _
      rw [told]
      exact Arguments.get?_release _ _ c.host.os he
    · rcases List.mem_pair.1 hk with rfl | rfl
      · exact held
      · exact held

/-- Where the directories of the search path are absolute, looking up what has been looked up changes
nothing. So pinning the compilers once more changes nothing, and the programs of the host phase of a cross
build are told of the tools that are in their environment, although these have been looked up before. -/
theorem lookups_settle {env : Environ} (rooted : env.Rooted) :
    (∀ view name, Lookup.resolve view env (Lookup.resolve view env name) = Lookup.resolve view env name) ∧
    (∀ view, (env.pinCompilers view).pinCompilers view = env.pinCompilers view) ∧
    ∀ (c : Config) (target : Os), c.env = env → c.target = some target → target ≠ c.host.os →
      ∀ (o : Outside) (w : World), ∃ es configure make,
        Recorded es w ((zlib.compile c).run o w).2 ∧ hostCommands c es <+: [configure, make] ∧
        (((zlib.compile c).run o w).1 = .ok () → hostCommands c es = [configure, make]) ∧
        Equipped c.host.os configure make := by
  refine ⟨Lookup.resolve_resolve rooted, Environ.pinCompilers_pinCompilers rooted, ?_⟩
  rintro c target rfl cross other o w
  obtain ⟨es, fs, -, recorded, same, part, whole⟩ := compile_hostCommands cross other o w
  exact ⟨fs, _, _, recorded, same ▸ part, fun ended => same ▸ whole ended,
    equipped_hostRound rooted w.toView⟩

/-- The definitions of the tools in the host phase, and the variables in the environment of its programs. -/
example : (Arguments.binutils ++ Arguments.platformTools .windows).map (fun e => (e.1, e.2.var)) =
      [("CMAKE_RANLIB", "RANLIB"), ("CMAKE_AR", "AR"), ("CMAKE_LINKER", "LD"), ("CMAKE_STRIP", "STRIP"),
        ("CMAKE_RC_COMPILER", "RC")] ∧
    (Arguments.binutils ++ Arguments.platformTools .macos).map (fun e => (e.1, e.2.var)) =
      [("CMAKE_RANLIB", "RANLIB"), ("CMAKE_AR", "AR"), ("CMAKE_LINKER", "LD"), ("CMAKE_STRIP", "STRIP"),
        ("CMAKE_INSTALL_NAME_TOOL", "INSTALL_NAME_TOOL"), ("CMAKE_OTOOL", "OTOOL")] := by
  decide

section Sample

open Environ (workshop doubled)

/-- A cross build whose archiver is named by a place below the working directory. -/
theorem lookups_settle_doubled :
    let c := crossed.withEnv doubled
    let w : World := ⟨workshop, [], [], []⟩
    doubled.Rooted ∧ c.env = doubled ∧ c.target = some .windows ∧ Os.windows ≠ c.host.os ∧
      Lookup.resolve workshop doubled (Lookup.resolve workshop doubled "bin/cc") = "/w/bin/cc" ∧
      (doubled.pinCompilers workshop).pinCompilers workshop = doubled.pinCompilers workshop ∧
      ∃ configure make : Command, hostCommands c ((zlib.compile c).run quiet w).2.trace = [configure, make] ∧
        (definitions configure.arguments.tail).lookup "CMAKE_AR" = some "/w/bin/cc" ∧
        make.environ.get? (ofText "AR") = some (ofText "/w/bin/cc") := by
  intro c w
  have rooted : doubled.Rooted := by
    intro list held
    have path : doubled.get? (ofText "PATH") = some (ofText "/t") := by decide +kernel
    rw [path] at held
    cases held
    decide +kernel
  have other : Os.windows ≠ c.host.os := by decide
  obtain ⟨again, pinned, host⟩ := lookups_settle rooted
  obtain ⟨es, configure, make, recorded, -, whole, equipped⟩ := host c .windows rfl rfl other quiet w
  have ended : ((zlib.compile c).run quiet w).1.toOption = some () := by decide +kernel
  have trace : ((zlib.compile c).run quiet w).2.trace = es := by
    rw [recorded.trace]
    exact List.append_nil es
  have started := whole (ok_of_toOption ended)
  obtain ⟨value, told, held⟩ := equipped.tools ("CMAKE_AR", .ar) (by decide)
  have archiver : (hostCommands c ((zlib.compile c).run quiet w).2.trace).map
      (fun k => k.environ.get? (ofText "AR")) = List.replicate 2 (some (ofText "/w/bin/cc")) := by
    decide +kernel
  rw [trace, started] at archiver
  have makes : make.environ.get? (ofText "AR") = some (ofText "/w/bin/cc") :=
    (List.cons.inj (List.cons.inj archiver).2).1
  have same : value = "/w/bin/cc" :=
    Bytes.ofText_inj.1 (Option.some.inj ((held make (by simp)).symm.trans makes))
  refine ⟨rooted, rfl, rfl, other, (again workshop "bin/cc").trans (by decide +kernel),
    pinned workshop, configure, make, ?_, same ▸ told, makes⟩
  rw [trace, started]

end Sample

end Library
end PinnedDeps
