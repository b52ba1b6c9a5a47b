import PinnedDeps.Proofs.Cmake.Reading
import PinnedDeps.Proofs.Library.HostPhase

/-!
The target phase of a cross build. It is told what the host phase was told, with the prefix, the tools
and the description of the system set anew: a key that was there is replaced where it stands, a new one
is put at the end, and nothing of the values comes from the variables of the host.
-/
namespace PinnedDeps

open PinnedDeps.Action Cmake
open Bytes (ofText)

namespace Environ

variable {a b : Environ}

/-- Both hold the same values outside the variables that describe the toolchain of the host. -/
def AgreeOffHost (a b : Environ) : Prop := ∀ k, ¬ ofText hostMark <+: k → a.get? k = b.get? k

theorem AgreeOffHost.resolve (same : a.AgreeOffHost b) (t : Tool) (view : View) :
    t.resolve view a = t.resolve view b := by
  have path : ¬ ofText hostMark <+: ofText "PATH" := by decide +kernel
  exact Tool.resolve_congr (same _ t.not_marked_var) (same _ path)

theorem AgreeOffHost.pinCompilers (same : a.AgreeOffHost b) (view : View) :
    (a.pinCompilers view).AgreeOffHost (b.pinCompilers view) := by
  intro k hk
  unfold Environ.pinCompilers
  simp only [List.foldl_cons, List.foldl_nil, get?_set, same.resolve, same k hk]

end Environ

namespace Library

variable {c : Config} {target : Os}

/-- What the target phase sets, one after another. -/
def targetDefinitions (view : View) (c : Config) (target : Os) (env : Environ) : List (String × String) :=
  let tools := fun e : String × Tool => (e.1, e.2.resolve view env)
  (Arguments.installPrefix, (Phase.target.installDir zlib c.deps).shown) ::
    (Arguments.binutils.map tools ++
      ([("CMAKE_CROSSCOMPILING", "TRUE"), ("CMAKE_SYSTEM_NAME", target.cmakeName),
        ("CMAKE_SYSTEM_PROCESSOR", c.host.arch.name)] ++ (Arguments.platformTools target).map tools))

def targetKeys (target : Os) : List String :=
  Arguments.installPrefix :: (Arguments.binutils.map Prod.fst ++
    (["CMAKE_CROSSCOMPILING", "CMAKE_SYSTEM_NAME", "CMAKE_SYSTEM_PROCESSOR"] ++
      (Arguments.platformTools target).map Prod.fst))

theorem keys_targetDefinitions (view : View) (c : Config) (target : Os) (env : Environ) :
    (targetDefinitions view c target env).map Prod.fst = targetKeys target := by
  simp [targetDefinitions, targetKeys, Function.comp_def]

theorem nodup_targetKeys (target : Os) : (targetKeys target).Nodup := by
  cases target <;> decide

theorem isKey_targetKeys (target : Os) : ∀ k ∈ targetKeys target, IsKey k := by
  cases target <;> decide

theorem zlibTargetArguments_eq (view : View) (c : Config) (target : Os) (told : Arguments) (env : Environ) :
    zlibTargetArguments view c target told env =
      told.defineAll (targetDefinitions view c target env) := by
  unfold zlibTargetArguments
  simp only [Arguments.defineTools_eq]
  unfold targetDefinitions Arguments.crossCompile
  rw [← List.singleton_append, Arguments.defineAll_append, Arguments.defineAll_append,
    Arguments.defineAll_append]
  rfl

section TargetRound

variable (c) (target) (told : Arguments) (view : View)

/-- The pairs that the target phase sets, with the tools of its own environment. -/
abbrev roundDefinitions : List (String × String) :=
  targetDefinitions view c target (c.env.pinCompilers view)

theorem arguments_targetRound : (targetRound c target told view).arguments =
    told.defineAll (roundDefinitions c target view) :=
  zlibTargetArguments_eq view c target told _

theorem get?_targetRound (k : String) : (targetRound c target told view).arguments.get? k =
    ((roundDefinitions c target view).lookup k).or (told.get? k) := by
  rw [arguments_targetRound, Arguments.get?_defineAll]
  rw [keys_targetDefinitions]
  exact nodup_targetKeys target

theorem get?_targetRound_other {k : String} (h : k ∉ targetKeys target) :
    (targetRound c target told view).arguments.get? k = told.get? k := by
  have other : (roundDefinitions c target view).lookup k = none :=
    Pairs.lookup_eq_none (keys_targetDefinitions view c target _ ▸ h)
  rw [get?_targetRound, other]
  rfl

theorem get?_targetRound_of_mem {e : String × String} (h : e ∈ roundDefinitions c target view) :
    (targetRound c target told view).arguments.get? e.1 = some e.2 := by
  have distinct : ((roundDefinitions c target view).map Prod.fst).Nodup := by
    rw [keys_targetDefinitions]
    exact nodup_targetKeys target
  rw [get?_targetRound, Pairs.lookup_of_mem distinct h]
  rfl

theorem mem_targetRound {e : String × String} (h : e ∈ roundDefinitions c target view) :
    e ∈ (targetRound c target told view).arguments.defines :=
  Pairs.mem_of_lookup (get?_targetRound_of_mem c target told view h)

theorem mem_roundDefinitions {e : String × Tool}
    (h : e ∈ Arguments.binutils ++ Arguments.platformTools target) :
    (e.1, e.2.resolve view (c.env.pinCompilers view)) ∈ roundDefinitions c target view := by
  unfold roundDefinitions targetDefinitions
  simp only [List.mem_cons, List.mem_append, List.mem_map]
  rcases List.mem_append.1 h with h | h
  · exact .inr (.inl ⟨e, h, rfl⟩)
  · exact .inr (.inr (.inr ⟨e, h, rfl⟩))

theorem readable_targetRound {told : Arguments} (h : told.Readable) :
    (targetRound c target told view).arguments.Readable := by
  rw [arguments_targetRound]
  refine h.defineAll ?_
  rw [keys_targetDefinitions]
  exact isKey_targetKeys target

end TargetRound

/-- The keys that the host phase defines. -/
def hostKeys (host : Os) : List String :=
  ["CMAKE_BUILD_TYPE", Arguments.installPrefix] ++ Arguments.binutils.map Prod.fst ++
    (Arguments.platformTools host).map Prod.fst ++ if host = .windows then ["CMAKE_SH"] else []

theorem keys_hostRound (c : Config) (view : View) :
    (hostRound c view).arguments.defines.map Prod.fst = hostKeys c.host.os := by
  unfold hostRound zlibArguments Arguments.release
  cases c.host.os <;> rfl

theorem names_hostRound (c : Config) (view : View) : (hostRound c view).Names zlib c :=
  names_zlib view .host _

theorem definition?_generator_hostRound (c : Config) (view : View) :
    ∀ g ∈ (hostRound c view).arguments.generator, definition? g = none := by
  unfold hostRound zlibArguments Arguments.release
  cases c.host.os with
  | linux => rintro g ⟨⟩
  | macos => rintro g ⟨⟩
  | windows => rintro g ⟨⟩; decide

theorem readable_hostRound (rooted : c.deps.isAbsolute = true) (view : View) :
    (hostRound c view).arguments.Readable where
  source := by
    rw [(names_hostRound c view).source]
    exact Path.isAbsolute_join rooted
  keys := (names_hostRound c view).keys
  generator := definition?_generator_hostRound c view

/-- The argument list of the target phase beside that of the host phase, where `between` is what the
target phase finds. -/
structure Overrides (c : Config) (target : Os) (between : View) (hostTold told : List String) : Prop where
  once : ((definitions told).map Prod.fst).Nodup
  into : (Arguments.installPrefix, (Phase.target.installDir zlib c.deps).shown) ∈ definitions told
  /-- Any environment that differs only in the variables of the host gives the same tools. -/
  tools : ∀ e ∈ Arguments.binutils ++ Arguments.platformTools target, ∀ env : Environ,
    env.AgreeOffHost c.env → (e.1, e.2.resolve between (env.pinCompilers between)) ∈ definitions told
  crossing : ("CMAKE_CROSSCOMPILING", "TRUE") ∈ definitions told
  system : ("CMAKE_SYSTEM_NAME", target.cmakeName) ∈ definitions told
  processor : ("CMAKE_SYSTEM_PROCESSOR", c.host.arch.name) ∈ definitions told
  kept : ∀ k, k ∉ targetKeys target → (definitions told).lookup k = (definitions hostTold).lookup k
  source : told.head? = hostTold.head?
  generator : generator? told = generator? hostTold
  order : (definitions hostTold).map Prod.fst <+: (definitions told).map Prod.fst
  plain : ∀ k ∈ (definitions hostTold).map Prod.fst,
    k ≠ "CMAKE_CROSSCOMPILING" ∧ ¬ "CMAKE_SYSTEM_".toList <+: k.toList

theorem overrides_targetRound (rooted : c.deps.isAbsolute = true) (target : Os) (view between : View) :
    let told := (hostRound c view).arguments
    Overrides c target between told.toList (targetRound c target told between).arguments.toList := by
  intro told
  have readable : told.Readable := readable_hostRound rooted view
  have before : definitions told.toList = told.defines := Arguments.definitions_toList readable
  have after := Arguments.definitions_toList (readable_targetRound c target between readable)
  have set := arguments_targetRound c target told between
  have put : ∀ e ∈ roundDefinitions c target between,
      e ∈ definitions (targetRound c target told between).arguments.toList :=
    fun e he => after ▸ mem_targetRound c target told between he
  constructor
  case once =>
    rw [after, set]
    exact Arguments.nodup_defineAll (names_hostRound c view).distinct _
  case into => exact put _ (by simp [targetDefinitions])
  case tools =>
    intro e he env same
    rw [(same.pinCompilers between).resolve]
    exact put _ (mem_roundDefinitions c target between he)
  case crossing => exact put _ (by simp [targetDefinitions])
  case system => exact put _ (by simp [targetDefinitions])
  case processor => exact put _ (by simp [targetDefinitions])
  case kept =>
    intro k hk
    rw [after, before]
    exact get?_targetRound_other c target told between hk
  case source =>
    show some (targetRound c target told between).arguments.sourceDir.shown = some told.sourceDir.shown
    rw [set, Arguments.sourceDir_defineAll]
  case generator =>
    rw [Arguments.generator?_toList readable,
      Arguments.generator?_toList (readable_targetRound c target between readable), set,
      Arguments.generator_defineAll]
  case order =>
    rw [after, before, set]
    exact Arguments.keys_defineAll _ _
  case plain =>
    rw [before, keys_hostRound]
    cases c.host.os <;> decide

/-- The definitions that carry the tools for each target, and the variables that they are looked up by. -/
example :
    Arguments.binutils.map (fun e => (e.1, e.2.var)) = [("CMAKE_RANLIB", "RANLIB"), ("CMAKE_AR", "AR"),
      ("CMAKE_LINKER", "LD"), ("CMAKE_STRIP", "STRIP")] ∧
    Arguments.platformTools .linux = [] ∧
    (Arguments.platformTools .windows).map (fun e => (e.1, e.2.var)) = [("CMAKE_RC_COMPILER", "RC")] ∧
    (Arguments.platformTools .macos).map (fun e => (e.1, e.2.var)) =
      [("CMAKE_INSTALL_NAME_TOOL", "INSTALL_NAME_TOOL"), ("CMAKE_OTOOL", "OTOOL")] := by
  decide

section Sample

/-- A build for Windows on Linux, with an archiver for each of the two. -/
def crossedTools : Config := crossed.withEnv
  ((Environ.empty.set (ofText "AR") (ofText "/t/ar")).set (ofText "ALUSUS_HOST_AR") (ofText "/h/ar"))

end Sample

end Library
end PinnedDeps
