import PinnedDeps.Proofs.Environ
import PinnedDeps.Proofs.Volume.Outcome
import PinnedDeps.Proofs.Volume.Rooted
import PinnedDeps.Toolchain

/-!
Looking programs up. A name is looked for as it is if it has several components, and in the
directories of the search path otherwise. What is found is handed on as text and as it was joined: it
means the same file in every working directory only if it is text and the directory was absolute.
-/
namespace PinnedDeps

open Bytes (ofText)

theorem Volume.stat_of_absolute {p : Path} (h : p.isAbsolute = true) (v : Volume) (cwd l : Location) :
    v.stat cwd p = v.stat l p := by
  have start : ∀ d, startOf d p.bytes = [] := fun d => if_pos (by simpa [Path.isAbsolute] using h)
  unfold stat reach
  rw [start, start]

namespace Lookup

variable {view : View} {env base : Environ} {name p : Path} {s : String}

/-- Where a program is looked for whose name may be any bytes, in this order. -/
def places (view : View) (searchPath : Option Bytes) (name : Path) : List Path :=
  if 1 < name.components.length then
    [if name.isAbsolute then name else view.cwd.path.extend (name.components.dropWhile (· == .current))]
  else
    (searchPath.map fun list =>
      (list.splitOn listSeparator).map fun entry => (directory view.home entry).join name).getD []

/-- The first place with a program. -/
def program? (view : View) (env : Environ) (name : Path) : Option Path :=
  (places view (env.get? (ofText "PATH")) name).find? view.leadsToProgram

/-- What a name of any bytes is looked up as: the place as it is shown, or the name itself. -/
def found (view : View) (env : Environ) (name : Bytes) : Bytes :=
  ((program? view env ⟨name⟩).map fun p => ofText p.shown).getD name

theorem candidates_eq (view : View) (searchPath : Option Bytes) (s : String) :
    candidates view searchPath s = places view searchPath ⟨ofText s⟩ := rfl

theorem resolve_eq (view : View) (env : Environ) (s : String) :
    resolve view env s = ((program? view env (Path.ofText s)).map Path.shown).getD s := by
  unfold resolve
  rw [candidates_eq]
  unfold program? Path.ofText
  cases (places view (env.get? (ofText "PATH")) ⟨ofText s⟩).find? view.leadsToProgram <;> rfl

theorem ofText_resolve (view : View) (env : Environ) (s : String) :
    ofText (resolve view env s) = found view env (ofText s) := by
  rw [resolve_eq]
  show _ = ((program? view env (Path.ofText s)).map fun p => ofText p.shown).getD (ofText s)
  cases program? view env (Path.ofText s) <;> rfl

/-- Of the environment, only the search path is read. -/
theorem resolve_congr (same : env.get? (ofText "PATH") = base.get? (ofText "PATH")) (s : String) :
    resolve view env s = resolve view base s := by
  unfold resolve
  rw [same]

theorem found_congr (same : env.get? (ofText "PATH") = base.get? (ofText "PATH")) (b : Bytes) :
    found view env b = found view base b := by
  unfold found program?
  rw [same]

theorem leadsToProgram_of_program? (h : program? view env name = some p) :
    view.leadsToProgram p = true :=
  List.find?_some h

/-- A name of several components is found at an absolute place. -/
theorem isAbsolute_of_several (several : 1 < name.components.length)
    (h : program? view env name = some p) : p.isAbsolute = true := by
  have place := List.mem_of_find?_eq_some h
  unfold places at place
  rw [if_pos several, List.mem_singleton] at place
  rw [place]
  split
  · assumption
  · exact Path.isAbsolute_extend (Volume.isAbsolute_path view.cwd) _

/-- A name of one component is found in a directory of the search path. -/
theorem entry_of_single (single : ¬ 1 < name.components.length)
    (h : program? view env name = some p) : ∃ list entry, env.get? (ofText "PATH") = some list ∧
      entry ∈ list.splitOn listSeparator ∧ p = (directory view.home entry).join name := by
  have place := List.mem_of_find?_eq_some h
  unfold places at place
  rw [if_neg single] at place
  cases held : env.get? (ofText "PATH") with
  | none =>
    rw [held] at place
    cases place
  | some list =>
    rw [held] at place
    obtain ⟨entry, listed, rfl⟩ := List.mem_map.1 place
    exact ⟨list, entry, rfl, listed, rfl⟩

/-- Without a search path no name of one component is found. -/
theorem found_of_unset {b : Bytes} (unset : env.get? (ofText "PATH") = none)
    (single : ¬ 1 < (⟨b⟩ : Path).components.length) : found view env b = b := by
  have nowhere : places view (env.get? (ofText "PATH")) ⟨b⟩ = [] := by
    unfold places
    rw [unset, if_neg single]
    rfl
  unfold found program?
  rw [nowhere]
  rfl

end Lookup

theorem Tool.resolve_congr {view : View} {a b : Environ} {t : Tool}
    (own : a.get? (ofText t.var) = b.get? (ofText t.var))
    (path : a.get? (ofText "PATH") = b.get? (ofText "PATH")) : t.resolve view a = t.resolve view b := by
  have program : t.program a = t.program b := by
    unfold Tool.program Environ.textD Environ.text?
    rw [own]
  unfold Tool.resolve
  rw [program, Lookup.resolve_congr path]

/-- A tool whose variable holds text is what the text says. -/
theorem Tool.program_of_text {env : Environ} {t : Tool} {s : String}
    (h : env.get? (ofText t.var) = some (ofText s)) : t.program env = s := by
  unfold Tool.program Environ.textD Environ.text?
  simp [h]

namespace Environ

open Lookup

variable {view : View} {env : Environ} {t : Tool} {k : Bytes}

/-- The two compilers of an environment. -/
def compilers : List Tool := [.cc, .cxx]

theorem path_ne_compiler : ∀ t ∈ compilers, ofText "PATH" ≠ ofText t.var := by
  have apart : ∀ t ∈ compilers, "PATH" ≠ t.var := by decide
  exact fun t ht same => apart t ht (Bytes.ofText_inj.1 same)

/-- What the variables of the compilers are set to. -/
def pins (env : Environ) (view : View) : List (Bytes × Bytes) :=
  compilers.map fun t => (ofText t.var, ofText (t.resolve view env))

theorem distinct_pins (env : Environ) (view : View) : ((env.pins view).map Prod.fst).Nodup := by
  have keys : (env.pins view).map Prod.fst = compilers.map fun t => ofText t.var := rfl
  rw [keys]
  decide

theorem get?_pinCompilers (env : Environ) (view : View) (k : Bytes) :
    (env.pinCompilers view).get? k = ((env.pins view).lookup k).or (env.get? k) :=
  get?_overlay env (distinct_pins env view) k

theorem get?_pinCompilers_of_mem (ht : t ∈ compilers) :
    (env.pinCompilers view).get? (ofText t.var) = some (found view env (ofText (t.program env))) := by
  have pin : (ofText t.var, ofText (t.resolve view env)) ∈ env.pins view := List.mem_map.2 ⟨t, ht, rfl⟩
  rw [get?_pinCompilers, Pairs.lookup_of_mem (distinct_pins env view) pin, ← ofText_resolve]
  rfl

theorem get?_pinCompilers_other (h : ∀ t ∈ compilers, k ≠ ofText t.var) :
    (env.pinCompilers view).get? k = env.get? k := by
  rw [get?_pinCompilers, Pairs.lookup_eq_none]
  · rfl
  · intro mem
    obtain ⟨e, he, rfl⟩ := List.mem_map.1 mem
    obtain ⟨t, ht, rfl⟩ := List.mem_map.1 he
    exact h t ht rfl

theorem get?_path_pinCompilers : (env.pinCompilers view).get? (ofText "PATH") = env.get? (ofText "PATH") :=
  get?_pinCompilers_other path_ne_compiler

section Sample

/-- A compiler below the working directory, another one below the root, and one in a directory whose
name is no text. -/
def workshop : View where
  volume :=
    let program : Entry := .file ⟨[], 0o755, none⟩
    ⟨[([ofText "w"], .dir), ([ofText "bin", ofText "w"], .dir), ([ofText "t"], .dir), ([[0xff]], .dir),
      ([ofText "cc", ofText "bin", ofText "w"], program), ([ofText "clang++", ofText "t"], program),
      ([ofText "cc", [0xff]], program)]⟩
  cwd := [ofText "w"]
  home := "/"

/-- Looks for `cc` along a search path. -/
def searching (list : Bytes) : Environ :=
  (Environ.empty.set (ofText "CC") (ofText "cc")).set (ofText "PATH") list

end Sample

end Environ
end PinnedDeps
