import PinnedDeps.Main
import PinnedDeps.Proofs.CommandLine.Output
import PinnedDeps.Proofs.CommandLine.Reading
import PinnedDeps.Proofs.Document
import PinnedDeps.Proofs.Library.Exporting

/-!
What a caller is told of a library. The variables that it changes are read out of the report, or out of
the lines, as they are, and set on top of the environment of the run they give the environment of the
library.
-/
namespace PinnedDeps.CommandLine

open Bytes (ofText lossy toText?)
open PinnedDeps.Action

variable {lib : Library} {deps : Path} {target : Option Os} {host : Os} {base : Environ}
  {told : List (String × String)} {changed : List (Bytes × Bytes)}

def bytesOf (told : List (String × String)) : List (Bytes × Bytes) :=
  told.map fun p => (ofText p.1, ofText p.2)

theorem mem_bytesOf {p : String × String} (h : p ∈ told) : (ofText p.1, ofText p.2) ∈ bytesOf told :=
  List.mem_map_of_mem h

/-- The variables that a library may change. -/
def changeable (lib : Library) (cross : Bool) : List String :=
  zlibRootVar :: (lib.offers cross).map Library.Offer.var

theorem changeable_plain (lib : Library) (cross : Bool) :
    ∀ n ∈ changeable lib cross, '=' ∉ n.toList ∧ '\n' ∉ n.toList := by
  cases lib <;> cases cross <;> decide

theorem name_of_changed {p : Bytes × Bytes}
    (h : p ∈ (lib.overlay deps target host base).changedFrom base) :
    ∃ n ∈ changeable lib (isCross target host), p.1 = ofText n := by
  obtain ⟨k, v⟩ := p
  obtain ⟨held, new⟩ : (lib.overlay deps target host base).get? k = some v ∧ base.get? k ≠ some v := by
    have mem := List.mem_filter.1 h
    exact ⟨Environ.get?_eq_some_iff.2 mem.1, by simpa using mem.2⟩
  by_cases root : k = ofText zlibRootVar
  · exact ⟨zlibRootVar, List.mem_cons_self, root⟩
  by_cases listed : ∃ x ∈ lib.offers (isCross target host), k = ofText x.var
  · obtain ⟨x, hx, rfl⟩ := listed
    exact ⟨x.var, List.mem_cons_of_mem _ (List.mem_map_of_mem hx), rfl⟩
  · rw [Library.overlay_other base root fun x hx same => listed ⟨x, hx, same⟩] at held
    exact absurd held new

/-- What is text is told as it is. -/
theorem exportedTexts_bytesOf (sorted : (bytesOf told).Pairwise fun x y => x.1 < y.1) :
    exportedTexts (bytesOf told) = told := by
  have read : (bytesOf told).map (fun p => (lossy p.1, lossy p.2)) = told := by
    unfold bytesOf
    rw [List.map_map]
    exact (List.map_congr_left fun p _ => by simp).trans (List.map_id told)
  unfold exportedTexts
  simp only [read]
  rw [show told.map (fun p => (ofText p.1, ofText p.2)) = bytesOf told from rfl,
    Environ.pairs_ofPairs sorted, read]

theorem exists_bytesOf (texts : ∀ p ∈ changed, (toText? p.1).isSome ∧ (toText? p.2).isSome) :
    ∃ told, bytesOf told = changed := by
  refine ⟨changed.map fun p => (lossy p.1, lossy p.2), ?_⟩
  unfold bytesOf
  rw [List.map_map]
  refine (List.map_congr_left fun p hp => ?_).trans (List.map_id changed)
  obtain ⟨name, value⟩ := texts p hp
  exact Prod.ext ((Bytes.ofText_lossy_iff p.1).2 name) ((Bytes.ofText_lossy_iff p.2).2 value)

theorem newline_mem_ofText {s : String} (h : '\n' ∈ s.toList) : Bytes.newline ∈ ofText s := by
  obtain ⟨front, back, parts⟩ := List.append_of_mem h
  have whole : s = String.ofList front ++ "\n" ++ String.ofList back := by
    rw [← String.toList_inj, parts]
    simp
  have feed : Bytes.newline ∈ ofText "\n" := by decide
  rw [whole, Bytes.ofText_append, Bytes.ofText_append]
  simp [feed]

/-- A line cut at its first equals sign. -/
def cut (line : String) : String × String :=
  (String.ofList (line.toList.takeWhile (· ≠ '=')),
    String.ofList ((line.toList.dropWhile (· ≠ '=')).drop 1))

theorem cut_envLine {p : String × String} (plain : '=' ∉ p.1.toList) : cut (envLine p) = p := by
  obtain ⟨name, value⟩ := p
  have chars : (envLine (name, value)).toList = name.toList ++ '=' :: value.toList := by
    simp [envLine, toString]
  have other : ∀ c ∈ name.toList, decide (c ≠ '=') = true := by
    intro c hc
    simp only [decide_eq_true_eq]
    rintro rfl
    exact plain hc
  unfold cut
  rw [chars, List.takeWhile_append_of_pos other, List.dropWhile_append_of_pos other]
  simp

/-- What is said of the variables that a library changes. -/
def envText (json : Bool) (vars : List (String × String)) : String :=
  if json then (envDocument vars).render ++ "\n" else ofLines (vars.map envLine)

theorem run_perform_env {s : Surroundings} {place : Place} {json : Bool} {o : Outside} {w : World}
    (resolved : place.deps.absolute w.cwd.path = .ok deps) :
    ((Request.env lib.name place json).perform s).run o w =
      (.ok 0, tell w (envText json (changedBy s lib deps place.target))) := by
  have known : Library.named lib.name = .ok lib := by cases lib <;> decide
  show (runEnv s place json lib.name).run o w = _
  unfold runEnv
  simp only [run_bind, run_orThrow, run_workingDir, known, resolved, Except.mapError]
  unfold envText
  cases json with
  | true => rfl
  | false =>
    show (List.forM _ _ >>= fun _ => pure 0 : Attempt Nat).run o w = _
    rw [run_bind_of_ok (run_sayAll envLine _)]
    rfl

/-- Values that are text are told as they are, under names that can be told from them. -/
theorem exists_told {s : Surroundings}
    (texts : ∀ p ∈ (lib.overlay deps target s.host.os s.environ).changedFrom s.environ,
      (toText? p.2).isSome) :
    ∃ told, bytesOf told = (lib.overlay deps target s.host.os s.environ).changedFrom s.environ ∧
      changedBy s lib deps target = told ∧ ∀ p ∈ told, '=' ∉ p.1.toList ∧ '\n' ∉ p.1.toList := by
  obtain ⟨told, same⟩ := exists_bytesOf fun p hp => by
    obtain ⟨n, _, name⟩ := name_of_changed hp
    refine ⟨?_, texts p hp⟩
    rw [name, Bytes.toText?_ofText]
    rfl
  refine ⟨told, same, ?_, fun p hp => ?_⟩
  · have sorted := Environ.sorted_changedFrom (lib.overlay deps target s.host.os s.environ) s.environ
    unfold changedBy
    rw [← same] at sorted ⊢
    exact exportedTexts_bytesOf sorted
  · obtain ⟨n, hn, name⟩ := name_of_changed (same ▸ mem_bytesOf hp)
    rw [Bytes.ofText_inj.1 name]
    exact changeable_plain lib _ n hn

/-- The report of the variables that a library changes, read back and set on top of the environment of
the run, gives the environment of the library; and so do the lines, if no value holds a line feed. -/
theorem env_merges {s : Surroundings} {place : Place} {json : Bool} {args : List Bytes} (o : Outside)
    (w : World) (asked : Request.read s.environ args = .ok (.env lib.name place json)) :
    ∃ deps, place.deps.absolute w.cwd.path = .ok deps ∧
      let env := lib.overlay deps place.target s.host.os s.environ
      ((∀ p ∈ env.changedFrom s.environ, (toText? p.2).isSome) →
        ∃ told text, run s args o w = (0, tell w text) ∧
          bytesOf told = env.changedFrom s.environ ∧ s.environ.overlay (bytesOf told) = env ∧
          (json = true → Document.read text = some (.record (told.map fun p => (p.1, .text p.2)))) ∧
          (json = false → (∀ p ∈ env.changedFrom s.environ, Bytes.newline ∉ p.2) →
            (toLines text).map cut = told)) := by
  obtain ⟨deps, resolved⟩ := Path.exists_absolute (deps_ne_nil asked rfl) w.cwd.path
  refine ⟨deps, resolved, fun texts => ?_⟩
  obtain ⟨told, same, vars, plain⟩ := exists_told texts
  refine ⟨told, envText json told, ?_, same, ?_, ?_, ?_⟩
  · unfold run
    rw [asked]
    simp only [run_perform_env resolved, vars]
  · rw [same]
    exact Environ.overlay_changedFrom fun _ h => Library.overlay_keeps s.environ h
  · rintro rfl
    exact Document.read_render _
  · rintro rfl unbroken
    unfold envText
    rw [if_neg Bool.false_ne_true, toLines_ofLines, List.map_map]
    · exact (List.map_congr_left fun p hp => cut_envLine (plain p hp).1).trans (List.map_id told)
    · intro l hl
      obtain ⟨p, hp, rfl⟩ := List.mem_map.1 hl
      have name := (plain p hp).2
      have value : '\n' ∉ p.2.toList := fun h =>
        unbroken _ (same ▸ mem_bytesOf hp) (newline_mem_ofText h)
      simp [envLine, toString, name, value]

section Quoted

/-- An environment with a value that has to be escaped. -/
def quoting : Surroundings :=
  ⟨.ofPairs [(ofText "CPATH", ofText "a\"=b\\\t")], Main.host, 4, fun _ => ⟨0, 0⟩⟩

def nowhere : World := ⟨⟨.empty, [], "/"⟩, [], [], []⟩

def quotingArgs : List Bytes := [ofText "env", ofText "zlib", ofText "--deps-path=/d"]

/-- The value comes back, from the report and from the lines. -/
theorem env_merges_quoted :
    let env := Library.zlib.overlay "/d" none .linux quoting.environ
    env.get? (ofText "CPATH") = some (ofText "/d/zlib-1.2.11.install/include:a\"=b\\\t") ∧
    (∃ told text, run quoting (quotingArgs ++ [ofText "--json"]) Main.outside nowhere =
        (0, tell nowhere text) ∧ quoting.environ.overlay (bytesOf told) = env ∧
      Document.read text = some (.record (told.map fun p => (p.1, .text p.2)))) ∧
    ∃ told text, run quoting quotingArgs Main.outside nowhere = (0, tell nowhere text) ∧
      quoting.environ.overlay (bytesOf told) = env ∧ (toLines text).map cut = told := by
  intro env
  have texts : ∀ p ∈ env.changedFrom quoting.environ, (toText? p.2).isSome := by decide +kernel
  have resolved : (Path.mk (ofText "/d")).absolute nowhere.cwd.path = .ok "/d" := by decide +kernel
  have report : Request.read quoting.environ (quotingArgs ++ [ofText "--json"]) =
      .ok (.env Library.zlib.name ⟨"/d", none⟩ true) := by decide +kernel
  have lines : Request.read quoting.environ quotingArgs =
      .ok (.env Library.zlib.name ⟨"/d", none⟩ false) := by decide +kernel
  refine ⟨by decide +kernel, ?_, ?_⟩
  · obtain ⟨deps, found, merges⟩ := env_merges Main.outside nowhere report
    obtain rfl : deps = "/d" := Except.ok.inj (found.symm.trans resolved)
    obtain ⟨told, text, ran, -, merged, read, -⟩ := merges texts
    exact ⟨told, text, ran, merged, read rfl⟩
  · obtain ⟨deps, found, merges⟩ := env_merges Main.outside nowhere lines
    obtain rfl : deps = "/d" := Except.ok.inj (found.symm.trans resolved)
    obtain ⟨told, text, ran, -, merged, -, read⟩ := merges texts
    exact ⟨told, text, ran, merged, read rfl (by decide +kernel)⟩

end Quoted

end PinnedDeps.CommandLine
