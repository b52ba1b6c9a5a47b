import PinnedDeps.Proofs.Toolchain.Host
import PinnedDeps.Proofs.Toolchain.Lookup

/-!
The environment for the host, variable by variable. Every variable that is replaced is replaced once
before the compilers are pinned, from the base and not from what has been replaced already, so the
order of the replacements does not matter.
-/
namespace PinnedDeps

open Bytes (ofText)

variable {host : Os} {t : Tool} {k : Bytes}

theorem compilers_subset_hostTools (host : Os) : Environ.compilers ⊆ hostTools host := by
  cases host <;> decide

theorem Tool.var_ne_compiler (other : t ∉ Environ.compilers) :
    ∀ u ∈ Environ.compilers, ofText t.var ≠ ofText u.var := fun _ hu same =>
  other (Tool.var_injective (Bytes.ofText_inj.1 same) ▸ hu)

namespace Environ

variable (view : View) (base : Environ) (host : Os)

/-- What a tool is looked up as for the host. -/
def hostProgram (t : Tool) : String :=
  Lookup.resolve view base (base.textD (ofText t.hostVar) t.fallback)

theorem AgreeBut.hostProgram {a b : Environ} {host : Os} (same : AgreeBut (targetVars host) a b)
    (view : View) (t : Tool) :
    Environ.hostProgram view a t = Environ.hostProgram view b t := by
  have program : a.textD (ofText t.hostVar) t.fallback = b.textD (ofText t.hostVar) t.fallback :=
    same.textD (hostMark_append_not_targetVar host t.var) _
  unfold Environ.hostProgram
  rw [program, Lookup.resolve_congr (same _ (path_not_targetVar host))]

/-- What every variable of the target is replaced by, if by anything. -/
def replacements : List (Bytes × Option Bytes) :=
  (hostTools host).map (fun t => (ofText t.var, some (ofText (hostProgram view base t)))) ++
    searchVars.map fun var => (ofText var, base.get? (ofText (hostMark ++ var)))

/-- Sets a variable, or unsets it. -/
def place (env : Environ) (e : Bytes × Option Bytes) : Environ :=
  match e.2 with
  | some value => env.set e.1 value
  | none => env.remove e.1

theorem get?_place (env : Environ) (e : Bytes × Option Bytes) (k : Bytes) :
    (env.place e).get? k = if k = e.1 then e.2 else env.get? k := by
  unfold place
  cases e.2 with
  | some value => exact get?_set env e.1 value k
  | none => exact get?_remove env e.1 k

/-- The environment for the host before the compilers are pinned. -/
def replaced : Environ := (replacements view base host).foldl place base

theorem replaced_eq : replaced view base host =
    searchVars.foldl (setHostSearch base) ((hostTools host).foldl (setHostTool view base) base) := by
  unfold replaced replacements
  rw [List.foldl_append, List.foldl_map, List.foldl_map]
  rfl

theorem forHost_eq : base.forHost view host = (replaced view base host).pinCompilers view := by
  rw [replaced_eq]
  rfl

variable {view} {base} {host}

theorem keys_replacements : (replacements view base host).map Prod.fst = targetVars host := by
  simp [replacements, targetVars, Function.comp_def]

theorem distinct_replacements : ((replacements view base host).map Prod.fst).Nodup := by
  rw [keys_replacements]
  exact nodup_targetVars host

theorem get?_replaced (k : Bytes) : (replaced view base host).get? k =
    ((replacements view base host).lookup k).getD (base.get? k) := by
  refine (Pairs.foldl_lookup get? place (fun v _ => v) get?_place distinct_replacements base k).trans ?_
  cases (replacements view base host).lookup k <;> rfl

theorem get?_replaced_of_mem {v : Option Bytes} (h : (k, v) ∈ replacements view base host) :
    (replaced view base host).get? k = v := by
  rw [get?_replaced, Pairs.lookup_of_mem distinct_replacements h]
  rfl

theorem get?_replaced_other (h : k ∉ targetVars host) :
    (replaced view base host).get? k = base.get? k := by
  rw [get?_replaced, Pairs.lookup_eq_none (by rwa [keys_replacements])]
  rfl

theorem get?_replaced_tool (ht : t ∈ hostTools host) :
    (replaced view base host).get? (ofText t.var) = some (ofText (hostProgram view base t)) :=
  get?_replaced_of_mem (List.mem_append_left _ (List.mem_map.2 ⟨t, ht, rfl⟩))

theorem get?_replaced_search {var : String} (hv : var ∈ searchVars) :
    (replaced view base host).get? (ofText var) = base.get? (ofText (hostMark ++ var)) :=
  get?_replaced_of_mem (List.mem_append_right _ (List.mem_map.2 ⟨var, hv, rfl⟩))

/-- Pinning looks a compiler up once more, still on the search path of the base. -/
theorem get?_forHost_compiler (ht : t ∈ compilers) : (base.forHost view host).get? (ofText t.var) =
    some (ofText (Lookup.resolve view base (hostProgram view base t))) := by
  -- What the compiler has been set to is text, so it is what the second lookup starts from.
  have program : t.program (replaced view base host) = hostProgram view base t :=
    Tool.program_of_text (get?_replaced_tool (compilers_subset_hostTools host ht))
  have path : (replaced view base host).get? (ofText "PATH") = base.get? (ofText "PATH") :=
    get?_replaced_other (path_not_targetVar host)
  rw [forHost_eq, get?_pinCompilers_of_mem ht, program, Lookup.ofText_resolve, Lookup.found_congr path]

theorem get?_forHost_other (h : ∀ t ∈ compilers, k ≠ ofText t.var) :
    (base.forHost view host).get? k = (replaced view base host).get? k := by
  rw [forHost_eq]
  exact get?_pinCompilers_other h

theorem search_ne_compiler {var : String} (hv : var ∈ searchVars) :
    ∀ t ∈ compilers, ofText var ≠ ofText t.var := by
  have apart : ∀ var ∈ searchVars, ∀ t ∈ compilers, var ≠ t.var := by decide
  exact fun t ht same => apart var hv t ht (Bytes.ofText_inj.1 same)

theorem get?_forHost_tool (ht : t ∈ hostTools host) (other : t ∉ compilers) :
    (base.forHost view host).get? (ofText t.var) = some (ofText (hostProgram view base t)) :=
  (get?_forHost_other (Tool.var_ne_compiler other)).trans (get?_replaced_tool ht)

/-- All that the environment for the host is made of lies outside the variables of the target. -/
theorem forHost_agree {a b : Environ} (same : AgreeBut (targetVars host) a b) (view : View) :
    a.forHost view host = b.forHost view host := by
  have made : replacements view a host = replacements view b host := by
    unfold replacements
    simp only [same.hostProgram view, same _ (hostMark_append_not_targetVar host _)]
  have once : replaced view a host = replaced view b host := by
    refine ext_get? fun k => ?_
    rw [get?_replaced, get?_replaced, made]
    by_cases hk : k ∈ targetVars host
    · rw [← keys_replacements] at hk
      obtain ⟨⟨j, v⟩, held, rfl⟩ := List.mem_map.1 hk
      rw [Pairs.lookup_of_mem distinct_replacements held]
      rfl
    · rw [same k hk]
  rw [forHost_eq, forHost_eq, once]

/-- The base with each variable of the target replaced: a search variable by its counterpart for the host,
a tool by what its override or its fallback is looked up as on the search path of the base, and a compiler
by what that is looked up as once more. -/
structure Hosted (view : View) (base : Environ) (host : Os) (env : Environ) : Prop where
  searches : ∀ var ∈ searchVars, env.get? (ofText var) = base.get? (ofText (hostMark ++ var))
  tools : ∀ t ∈ hostTools host, t ∉ compilers → env.get? (ofText t.var) =
    some (ofText (Lookup.resolve view base (base.textD (ofText t.hostVar) t.fallback)))
  twice : ∀ t ∈ compilers, env.get? (ofText t.var) = some (ofText (Lookup.resolve view base
    (Lookup.resolve view base (base.textD (ofText t.hostVar) t.fallback))))
  others : ∀ k, k ∉ searchVars.map ofText → (∀ t ∈ hostTools host, k ≠ ofText t.var) →
    env.get? k = base.get? k
  path : env.get? (ofText "PATH") = base.get? (ofText "PATH")
  marked : ∀ k, ofText hostMark <+: k → env.get? k = base.get? k
  foreign : ∀ t, t ∉ hostTools host → env.get? (ofText t.var) = base.get? (ofText t.var)

theorem get?_forHost_kept (hk : k ∉ targetVars host) :
    (base.forHost view host).get? k = base.get? k := by
  refine (get?_forHost_other fun t ht same => hk ?_).trans (get?_replaced_other hk)
  exact List.mem_append_left _ (List.mem_map.2 ⟨t, compilers_subset_hostTools host ht, same.symm⟩)

/-- The environment for the host is exactly that: every variable is either replaced or kept. -/
theorem forHost_exact (view : View) (base : Environ) (host : Os) :
    Hosted view base host (base.forHost view host) where
  searches var hv := (get?_forHost_other (search_ne_compiler hv)).trans (get?_replaced_search hv)
  tools t ht other := get?_forHost_tool ht other
  twice t ht := get?_forHost_compiler ht
  others k search tool := by
    refine get?_forHost_kept fun mem => ?_
    rcases List.mem_append.1 mem with mem | mem
    · obtain ⟨t, ht, same⟩ := List.mem_map.1 mem
      exact tool t ht same.symm
    · exact search mem
  path := get?_forHost_kept (path_not_targetVar host)
  marked k marked := get?_forHost_kept (marked_not_targetVar marked)
  foreign t ht := get?_forHost_kept (var_not_targetVar ht)

/-- What is replaced, and the names of the tools where no override is text. -/
example : searchVars = ["LIBRARY_PATH", "CPATH", "C_INCLUDE_PATH", "CPLUS_INCLUDE_PATH", "PKG_CONFIG_PATH"] ∧
    compilers.map Tool.var = ["CC", "CXX"] ∧
    (hostTools .linux).map (fun t => (t.var, t.hostVar, t.fallback)) =
      [("CC", "ALUSUS_HOST_CC", "clang"), ("CXX", "ALUSUS_HOST_CXX", "clang++"),
        ("AR", "ALUSUS_HOST_AR", "ar"), ("AS", "ALUSUS_HOST_AS", "as"),
        ("RANLIB", "ALUSUS_HOST_RANLIB", "ranlib"), ("NM", "ALUSUS_HOST_NM", "nm"),
        ("STRIP", "ALUSUS_HOST_STRIP", "strip"), ("LD", "ALUSUS_HOST_LD", "ld")] ∧
    hostTools .windows = hostTools .linux ++ [.resourceCompiler] ∧
    hostTools .macos = hostTools .linux ++ [.installNameTool, .otool] ∧
    [Tool.resourceCompiler, .installNameTool, .otool].map (fun t => (t.var, t.hostVar, t.fallback)) =
      [("RC", "ALUSUS_HOST_RC", "windres"),
        ("INSTALL_NAME_TOOL", "ALUSUS_HOST_INSTALL_NAME_TOOL", "install_name_tool"),
        ("OTOOL", "ALUSUS_HOST_OTOOL", "otool")] := by
  decide

section Sample

/-- Names an archiver and a directory of headers for the host beside those of the target. -/
def doubled : Environ := .ofPairs
  [(ofText "AR", ofText "/t/ar"), (ofText "ALUSUS_HOST_AR", ofText "bin/cc"), (ofText "CPATH", ofText "/t"),
    (ofText "ALUSUS_HOST_CPATH", [0xff]), (ofText "LIBRARY_PATH", ofText "/t"), (ofText "RC", ofText "/t/rc"),
    (ofText "PATH", ofText "/t"), (ofText "ALUSUS_HOST_CXX", ofText "clang++")]

theorem forHost_exact_doubled :
    let env := doubled.forHost workshop .linux
    env.get? (ofText "AR") = some (ofText "/w/bin/cc") ∧ env.get? (ofText "CXX") = some (ofText "/t/clang++") ∧
      env.get? (ofText "CPATH") = some [0xff] ∧ env.get? (ofText "LIBRARY_PATH") = none ∧
      env.get? (ofText "RC") = some (ofText "/t/rc") ∧ env.get? (ofText "PATH") = some (ofText "/t") ∧
      env.get? (ofText "ALUSUS_HOST_AR") = some (ofText "bin/cc") := by
  have hosted := forHost_exact workshop doubled .linux
  refine ⟨?_, ?_, ?_, ?_, ?_, hosted.path, hosted.marked _ (by decide +kernel)⟩
  · exact (hosted.tools .ar (by decide) (by decide)).trans (by decide +kernel)
  · exact (hosted.twice .cxx (by decide)).trans (by decide +kernel)
  · exact (hosted.searches "CPATH" (by decide)).trans (by decide +kernel)
  · exact (hosted.searches "LIBRARY_PATH" (by decide)).trans (by decide +kernel)
  · exact (hosted.foreign .resourceCompiler (by decide)).trans (by decide +kernel)

end Sample

end Environ
end PinnedDeps
