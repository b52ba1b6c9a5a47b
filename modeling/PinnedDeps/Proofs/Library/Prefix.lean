import PinnedDeps.Library
import PinnedDeps.Proofs.Cmake.Arguments
import PinnedDeps.Proofs.Library.Rounds

/-!
The install prefix. What the last configure step is told, what the installation copies from and what
later builds are told all name one directory. CMake is told its name as text, which for bytes that
are no text is the name of another one.
-/
namespace PinnedDeps

open PinnedDeps.Action Cmake
open Bytes (ofText slash)

namespace Path

theorem isAbsolute_absolute {p cwd q : Path} (rooted : cwd.isAbsolute = true)
    (h : p.absolute cwd = .ok q) : q.isAbsolute = true := by
  unfold absolute at h
  split at h
  · cases h
  · have base : ∀ double : Bool, (if double then ⟨[slash, slash]⟩
        else if p.isAbsolute then ⟨[slash]⟩ else cwd : Path).isAbsolute = true := by
      intro double
      split
      · rfl
      split
      · rfl
      · exact rooted
    cases h
    split
    · exact isAbsolute_join (isAbsolute_extend (base _) _)
    · exact isAbsolute_extend (base _) _

theorem bytes_div_cases (p : Path) {n : String} (hn : IsName (Bytes.ofText n)) :
    (p / n).bytes = p.bytes ++ Bytes.ofText n ∨
      (p / n).bytes = p.bytes ++ Bytes.ofText ("/" ++ n) := by
  show (p.join ⟨Bytes.ofText n⟩).bytes = _ ∨ (p.join ⟨Bytes.ofText n⟩).bytes = _
  rw [join_of_relative hn.relative, Bytes.ofText_append]
  split
  · exact .inl rfl
  · exact .inr rfl

/-- A name joined to a path leaves it as much text as it was. -/
theorem isText_div (p : Path) {n : String} (hn : IsName (Bytes.ofText n)) :
    (Bytes.toText? (p / n).bytes).isSome ↔ (Bytes.toText? p.bytes).isSome := by
  rcases bytes_div_cases p hn with h | h
  · rw [h, Bytes.isSome_toText?_append]
  · rw [h, Bytes.isSome_toText?_append]

/-- What a path below a directory is shown as names the same path if the directory is text. -/
theorem ofText_shown_div (p : Path) {n : String} (hn : IsName (Bytes.ofText n)) :
    Bytes.ofText (p / n).shown = (p / n).bytes ↔ (Bytes.toText? p.bytes).isSome :=
  (Bytes.ofText_lossy_iff _).trans (isText_div p hn)

end Path

namespace Library

variable {lib : Library} {c : Config} {o : Outside} {w : World}

/-- The configure step is told of the sources and of the prefix of its phase. -/
def Round.Names (lib : Library) (c : Config) (r : Round) : Prop :=
  r.arguments.Names (lib.source.srcDir c.deps) (r.phase.installDir lib c.deps)

theorem names_zlib (view : View) (phase : Phase) (env : Environ) :
    Round.Names zlib c ⟨phase, zlibArguments view c phase env, env⟩ :=
  Arguments.names_release _ _ _ _ _

theorem names_zlibTarget {host : Arguments} {dir : Path} (view : View) (target : Os) (env : Environ)
    (h : host.Names (zlib.source.srcDir c.deps) dir) :
    Round.Names zlib c ⟨.target, zlibTargetArguments view c target host env, env⟩ :=
  ((h.redirect _).binutils.crossCompile target _).platformTools target

theorem names_brotli (view : View) (env : Environ) :
    Round.Names brotli c ⟨.native, brotliArguments view c env, env⟩ := by
  unfold Round.Names brotliArguments
  have told := ((Arguments.names_releaseWithBinutils view (brotli.source.srcDir c.deps)
    (Phase.native.installDir brotli c.deps) env).define (k := "CMAKE_SYSTEM_PROCESSOR")
      (v := c.host.arch.name) (by decide) (by decide)).define (k := "CMAKE_CROSSCOMPILING")
      (v := "TRUE") (by decide) (by decide)
  cases c.target with
  | none => exact told
  | some target => exact told.define (by decide) (by decide)

theorem names_nativeRound (lib : Library) (view : View) : (nativeRound lib c view).Names lib c := by
  cases lib with
  | zlib => exact names_zlib _ _ _
  | brotli => exact names_brotli _ _

theorem names_plan {r : View × Round} (hr : r ∈ plan lib c o w) : r.2.Names lib c := by
  unfold plan at hr
  split at hr
  · rcases List.mem_pair.1 hr with rfl | rfl
    · exact names_zlib _ _ _
    · exact names_zlibTarget _ _ _ (names_zlib _ .host _)
  · rw [List.mem_singleton] at hr
    subst hr
    exact names_nativeRound _ _

/-- The programs of a compile are those of its phases, in order, up to the first that fails. -/
theorem issues_compile (lib : Library) (c : Config) (o : Outside) (w : World) :
    ∃ rounds : List Round, rounds.map Round.phase = phases lib c ∧ (∀ r ∈ rounds, r.Names lib c) ∧
      Issues (rounds.flatMap (Round.commands lib c)) (lib.compile c) o w := by
  refine ⟨(plan lib c o w).map Prod.snd, ?_, ?_, ?_⟩
  · rw [List.map_map]
    exact phases_plan lib c o w
  · intro r hr
    obtain ⟨s, hs, rfl⟩ := List.mem_map.1 hr
    exact names_plan hs
  · rw [List.flatMap_map]
    exact issues_plan lib c o w

/-- A directory stands in front of what a list variable held before. -/
def InFront (host : Os) (base env : Environ) (k : String) (dir : Path) : Prop :=
  env.get? (ofText k) = some (match base.get? (ofText k) with
    | none => dir.bytes
    | some old => dir.bytes ++ ofText host.listSeparator ++ old)

/-- The first directory of a search path. -/
def firstDir (host : Os) (value : Bytes) : Bytes :=
  value.takeWhile fun b => b ∉ ofText host.listSeparator

/-- A path that can be one of the directories of a search path. -/
def Listable (host : Os) (p : Path) : Prop := ∀ b ∈ p.bytes, b ∉ ofText host.listSeparator

theorem get?_prependAll (env : Environ) (sep : String) (es : List Export) (k : String)
    (distinct : (es.map Prod.fst).Nodup) :
    (env.prependAll sep es).get? (ofText k) = match es.lookup k with
      | none => env.get? (ofText k)
      | some dir => (env.prepend (ofText k) dir.bytes (ofText sep)).get? (ofText k) := by
  refine (Pairs.foldl_lookup (fun env k => env.get? (ofText k)) _
    (fun dir old => some (old.elim dir.bytes (dir.bytes ++ ofText sep ++ ·)))
    (fun env e k => ?_) distinct env k).trans ?_
  · rw [Environ.get?_prepend]
    by_cases same : k = e.1
    · rw [if_pos same, if_pos (congrArg ofText same), same]
      cases env.get? (ofText e.1) <;> rfl
    · rw [if_neg same, if_neg fun h => same (Bytes.ofText_inj.1 h)]
  · cases es.lookup k with
    | none => rfl
    | some dir =>
      simp only [Environ.get?_prepend, if_true]
      cases env.get? (ofText k) <;> rfl

theorem nodup_exports (lib : Library) (deps : Path) (target : Option Os) (host : Os) :
    ((lib.exports deps target host).map Prod.fst).Nodup := by
  unfold exports
  cases lib with
  | brotli =>
    show ["LIBRARY_PATH", "PKG_CONFIG_PATH", "CPATH"].Nodup
    decide
  | zlib =>
    cases isCross target host with
    | true =>
      show [hostMark ++ "PATH", hostMark ++ "LD_LIBRARY_PATH", hostMark ++ "LIBRARY_PATH",
        hostMark ++ "CPATH", hostMark ++ "PKG_CONFIG_PATH", "CPATH", "LIBRARY_PATH",
        "PKG_CONFIG_PATH"].Nodup
      decide
    | false =>
      show ["CPATH", "LIBRARY_PATH", "PKG_CONFIG_PATH"].Nodup
      decide

/-- What is exported stands in front. -/
theorem inFront_of_export {deps : Path} {target : Option Os} {host : Os} {k : String} {dir : Path}
    (base : Environ) (h : (lib.exports deps target host).lookup k = some dir)
    (hk : k ≠ zlibRootVar) : InFront host base (lib.overlay deps target host base) k dir := by
  have front := get?_prependAll base host.listSeparator _ k (nodup_exports lib deps target host)
  rw [h] at front
  simp only [Environ.get?_prepend, if_true] at front
  unfold InFront overlay
  cases lib.rootDir? deps target host with
  | none => exact front
  | some root =>
    simp only
    rw [Environ.get?_set, if_neg fun g => hk (Bytes.ofText_inj.1 g)]
    exact front

theorem exports_last (lib : Library) (deps : Path) (target : Option Os) (host : Os) :
    let pre := (Phase.last lib target host).installDir lib deps
    (lib.exports deps target host).lookup "LIBRARY_PATH" = some (pre / "lib") ∧
      (lib.exports deps target host).lookup "CPATH" = some (pre / "include") := by
  unfold exports Phase.last
  cases lib with
  | brotli => exact ⟨rfl, rfl⟩
  | zlib =>
    cases isCross target host with
    | true => exact ⟨by rfl, by rfl⟩
    | false => exact ⟨by rfl, by rfl⟩

theorem InFront.firstDir {host : Os} {base env : Environ} {k : String} {dir : Path}
    (h : InFront host base env k dir) : ∃ value, env.get? (ofText k) = some value ∧
      (Library.firstDir host value = dir.bytes ↔ Listable host dir) := by
  have first : ∀ rest : Bytes, (∀ b ∈ rest.head?, b ∈ ofText host.listSeparator) →
      (Library.firstDir host (dir.bytes ++ rest) = dir.bytes ↔ Listable host dir) := by
    intro rest ends
    unfold Library.firstDir
    constructor
    · intro same b hb
      rw [← same] at hb
      simpa using List.all_eq_true.1 List.all_takeWhile b hb
    · intro listable
      rw [List.takeWhile_append_of_pos fun b hb => by simpa using listable b hb]
      cases rest with
      | nil => simp
      | cons b rest => simp [ends b rfl]
  refine ⟨_, h, ?_⟩
  cases base.get? (ofText k) with
  | none => simpa using first [] (by simp)
  | some old =>
    obtain ⟨b, hb⟩ : ∃ b, ofText host.listSeparator = [b] := by
      cases host with
      | windows => exact ⟨0x3b, rfl⟩
      | linux => exact ⟨0x3a, rfl⟩
      | macos => exact ⟨0x3a, rfl⟩
    simp only [List.append_assoc]
    refine first _ fun x hx => ?_
    rw [hb] at hx ⊢
    simpa using hx.symm

/-- On no system are directories separated by anything but a colon or a semicolon. -/
theorem not_mem_listSeparator {host : Os} {b : UInt8} (h : b ≠ 0x3a ∧ b ≠ 0x3b) :
    b ∉ ofText host.listSeparator := by
  have marks : ∀ b ∈ ofText host.listSeparator, b = 0x3a ∨ b = 0x3b := by cases host <;> decide +kernel
  exact fun mem => (marks b mem).elim h.1 h.2

theorem listable_div {host : Os} (p : Path) {n : String} (hn : IsName (ofText n))
    (plain : ∀ b ∈ ofText ("/" ++ n), b ∉ ofText host.listSeparator) :
    Listable host (p / n) ↔ Listable host p := by
  have tail : ∀ b ∈ ofText n, b ∉ ofText host.listSeparator := by
    intro b hb
    exact plain b (by rw [Bytes.ofText_append]; simp [hb])
  unfold Listable
  rcases Path.bytes_div_cases p hn with h | h
  · rw [h]
    constructor
    · exact fun g b hb => g b (List.mem_append_left _ hb)
    · exact fun g b hb => (List.mem_append.1 hb).elim (g b) (tail b)
  · rw [h]
    constructor
    · exact fun g b hb => g b (List.mem_append_left _ hb)
    · exact fun g b hb => (List.mem_append.1 hb).elim (g b) (plain b)

/-- The name of an install prefix. -/
def prefixName (lib : Library) (phase : Phase) : String :=
  let suffix := phase.mark ++ "install"
  s!"{lib.source.stem}.{suffix}"

theorem isName_prefixName (lib : Library) (phase : Phase) : IsName (ofText (lib.prefixName phase)) := by
  cases lib <;> cases phase <;> decide

theorem plain_prefixName (lib : Library) (phase : Phase) :
    ∀ b ∈ ofText ("/" ++ lib.prefixName phase), b ≠ 0x3a ∧ b ≠ 0x3b := by
  cases lib <;> cases phase <;> decide +kernel

theorem listable_installDir (lib : Library) (phase : Phase) (host : Os) (deps : Path) {n : String}
    (hn : n = "lib" ∨ n = "include") :
    Listable host (phase.installDir lib deps / n) ↔ Listable host deps := by
  have name : IsName (ofText n) := by rcases hn with rfl | rfl <;> decide
  have plain : ∀ b ∈ ofText ("/" ++ n), b ≠ 0x3a ∧ b ≠ 0x3b := by
    rcases hn with rfl | rfl <;> decide +kernel
  rw [listable_div _ name fun b hb => not_mem_listSeparator (plain b hb)]
  exact listable_div deps (isName_prefixName lib phase) fun b hb =>
    not_mem_listSeparator (plain_prefixName lib phase b hb)

/-- The last configure step of a compile is told of one prefix, which is shown as the one that the
installation copies from and that later builds are told of; every configure step is told of the
sources. As paths, what is told is what is meant if and only if the directory of dependencies is
text, and the search paths start with the directory that is meant if and only if it holds no
separator. -/
theorem prefix_agreement (lib : Library) (c : Config) (cwd given : Path)
    (rooted : cwd.isAbsolute = true) (accepted : given.absolute cwd = .ok c.deps) (o : Outside)
    (w : World) (base : Environ) :
    let pre := (Phase.last lib c.target c.host.os).installDir lib c.deps
    let src := lib.source.srcDir c.deps
    let env := lib.overlay c.deps c.target c.host.os base
    (∃ rounds : List Round, Issues (rounds.flatMap (Round.commands lib c)) (lib.compile c) o w ∧
      (∀ r ∈ rounds, r.arguments.toList.head? = some src.shown) ∧
      ∃ r, rounds.getLast? = some r ∧ r.arguments.toList.filter (assigns Arguments.installPrefix) =
        [assigning Arguments.installPrefix ++ pre.shown]) ∧
    (lib.install c = do
      if lib = zlib ∧ c.targetOs = .windows then
        copyArtifact (pre / "lib" / "libzlib.dll.a") (pre / "lib" / "libz.dll.a")
      (lib.artifacts c.targetOs).installFrom pre c.layout) ∧
    (InFront c.host.os base env "LIBRARY_PATH" (pre / "lib") ∧
      InFront c.host.os base env "CPATH" (pre / "include") ∧
      (lib = zlib ∧ isCross c.target c.host.os → env.get? (ofText zlibRootVar) = some pre.bytes)) ∧
    ((ofText pre.shown = pre.bytes ↔ (Bytes.toText? c.deps.bytes).isSome) ∧
      (ofText src.shown = src.bytes ↔ (Bytes.toText? c.deps.bytes).isSome)) ∧
    ∃ libs headers, env.get? (ofText "LIBRARY_PATH") = some libs ∧
      env.get? (ofText "CPATH") = some headers ∧
      (firstDir c.host.os libs = (pre / "lib").bytes ↔ Listable c.host.os c.deps) ∧
      (firstDir c.host.os headers = (pre / "include").bytes ↔ Listable c.host.os c.deps) := by
  intro pre src env
  obtain ⟨libPath, includePath⟩ := exports_last lib c.deps c.target c.host.os
  have libs : InFront c.host.os base env "LIBRARY_PATH" (pre / "lib") :=
    inFront_of_export base libPath (by decide)
  have headers : InFront c.host.os base env "CPATH" (pre / "include") :=
    inFront_of_export base includePath (by decide)
  refine ⟨?_, rfl, ⟨libs, headers, ?_⟩, ⟨?_, ?_⟩, ?_⟩
  · obtain ⟨rounds, through, names, issues⟩ := issues_compile lib c o w
    refine ⟨rounds, issues, fun r hr => (names r hr).head_toList, ?_⟩
    have last := getLast_phases lib c
    rw [← through, List.getLast?_map, Option.map_eq_some_iff] at last
    obtain ⟨r, hr, hp⟩ := last
    have absolute : src.isAbsolute = true :=
      Path.isAbsolute_join (Path.isAbsolute_absolute rooted accepted)
    have told := (names r (List.mem_of_getLast? hr)).filter_toList (assigns_absolute _ absolute)
    rw [hp] at told
    exact ⟨r, hr, told⟩
  · rintro ⟨rfl, cross⟩
    have root : zlib.rootDir? c.deps c.target c.host.os =
        some (Phase.target.installDir zlib c.deps) := if_pos ⟨rfl, cross⟩
    have same : pre = Phase.target.installDir zlib c.deps := by
      show (Phase.last zlib c.target c.host.os).installDir zlib c.deps = _
      rw [Phase.last, if_pos cross]
    show (overlay zlib c.deps c.target c.host.os base).get? _ = _
    rw [overlay, root, same]
    simp only [Environ.get?_set, if_true]
  · exact Path.ofText_shown_div c.deps (isName_prefixName lib _)
  · exact Path.ofText_shown_div c.deps (named_source lib).src
  · obtain ⟨value, held, first⟩ := libs.firstDir
    obtain ⟨value', held', first'⟩ := headers.firstDir
    exact ⟨value, value', held, held', first.trans (listable_installDir lib _ _ _ (.inl rfl)),
      first'.trans (listable_installDir lib _ _ _ (.inr rfl))⟩

section Sample

/-- Builds below a directory whose name, given from the root, is a byte that no text has. -/
def strange : Config := { sample .linux with deps := ⟨[slash, 0xff]⟩ }

def strangePrefix : Path := Phase.native.installDir zlib strange.deps

theorem prefix_agreement_strange :
    (Path.ofText "/").isAbsolute = true ∧ (⟨[0xff]⟩ : Path).absolute "/" = .ok strange.deps ∧
      (ofText strangePrefix.shown = strangePrefix.bytes ↔
        (Bytes.toText? strange.deps.bytes).isSome) ∧
      InFront .linux .empty (zlib.overlay strange.deps none .linux .empty) "LIBRARY_PATH"
        (strangePrefix / "lib") := by
  obtain ⟨_, _, ⟨libs, _⟩, ⟨told, _⟩, _⟩ :=
    prefix_agreement zlib strange "/" ⟨[0xff]⟩ rfl rfl quiet (worldOf []) .empty
  exact ⟨rfl, rfl, told, libs⟩

/-- What zlib is configured for is not the directory that it is installed from. -/
theorem prefix_misnamed :
    let run := (zlib.compile strange).run quiet (worldOf [])
    (⟨[0xff]⟩ : Path).absolute "/" = .ok strange.deps ∧ run.1.toOption = some () ∧
      (commands run.2.trace).map Command.program = ["cmake", "make"] ∧
      ((commands run.2.trace).head?.map fun k =>
        k.arguments.filter (assigns Arguments.installPrefix)) =
          some [assigning Arguments.installPrefix ++ strangePrefix.shown] ∧
      ofText strangePrefix.shown ≠ strangePrefix.bytes := by
  refine ⟨rfl, ?_⟩
  decide +kernel

end Sample

end Library
end PinnedDeps
