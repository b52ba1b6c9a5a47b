import PinnedDeps.Proofs.Environ
import PinnedDeps.Proofs.Path
import PinnedDeps.Toolchain

/-!
What describes the toolchain of the target during a cross build, and environments that differ in
nothing else. What the environment for the host is made of is not among it.
-/
namespace PinnedDeps

open Bytes (ofText)

namespace Environ

variable {a b : Environ} {k v : Bytes} {ks : List Bytes} {host : Os}

/-- Both hold the same values except in the given variables. -/
def AgreeBut (ks : List Bytes) (a b : Environ) : Prop := ∀ k, k ∉ ks → a.get? k = b.get? k

theorem AgreeBut.textD (h : AgreeBut ks a b) (hk : k ∉ ks) (default : String) :
    a.textD k default = b.textD k default := by
  unfold Environ.textD text?
  rw [h k hk]

theorem AgreeBut.set_left (h : AgreeBut ks a b) (hk : k ∈ ks) (v : Bytes) :
    AgreeBut ks (a.set k v) b := by
  intro j hj
  have other : j ≠ k := fun same => hj (same ▸ hk)
  rw [get?_set, if_neg other]
  exact h j hj

end Environ

/-- The tools that are looked up anew for the host. -/
def hostTools (host : Os) : List Tool := Tool.common ++ Tool.ofPlatform host

/-- The variables that describe the toolchain of the target during a cross build. -/
def targetVars (host : Os) : List Bytes :=
  (hostTools host).map (fun t => ofText t.var) ++ searchVars.map ofText

namespace Tool

def all : List Tool := common ++ ofPlatform .windows ++ ofPlatform .macos

theorem mem_all (t : Tool) : t ∈ all := by
  cases t <;> decide

theorem var_injective : Function.Injective var := by
  have apart : ∀ t ∈ all, ∀ u ∈ all, t.var = u.var → t = u := by decide
  exact fun t u => apart t (mem_all t) u (mem_all u)

theorem var_not_searchVar (t : Tool) : t.var ∉ searchVars := by
  have apart : ∀ t ∈ all, t.var ∉ searchVars := by decide
  exact apart t (mem_all t)

end Tool

/-- No variable of a tool and no search variable is one for the host. -/
theorem not_marked : ∀ name ∈ Tool.all.map Tool.var ++ searchVars,
    ¬ ofText hostMark <+: ofText name := by
  decide +kernel

theorem Tool.not_marked_var (t : Tool) : ¬ ofText hostMark <+: ofText t.var :=
  not_marked _ (List.mem_append_left _ (List.mem_map_of_mem t.mem_all))

variable {host : Os} {t : Tool} {k : Bytes} {s : String}

/-- The names of the variables of the target. -/
def targetNames (host : Os) : List String := (hostTools host).map Tool.var ++ searchVars

theorem targetVars_eq (host : Os) : targetVars host = (targetNames host).map ofText := by
  simp [targetVars, targetNames, Function.comp_def]

theorem mem_targetVars : ofText s ∈ targetVars host ↔ s ∈ targetNames host := by
  rw [targetVars_eq, List.mem_map]
  exact ⟨fun ⟨_, hr, same⟩ => Bytes.ofText_inj.1 same ▸ hr, fun hs => ⟨s, hs, rfl⟩⟩

theorem path_not_targetVar (host : Os) : ofText "PATH" ∉ targetVars host := by
  rw [mem_targetVars]
  cases host <;> decide

theorem nodup_targetVars (host : Os) : (targetVars host).Nodup := by
  have names : (targetNames host).Nodup := by cases host <;> decide
  rw [targetVars_eq]
  exact List.pairwise_map.2 (names.imp fun other same => other (Bytes.ofText_inj.1 same))

theorem var_not_targetVar (h : t ∉ hostTools host) : ofText t.var ∉ targetVars host := by
  rw [mem_targetVars]
  intro mem
  rcases List.mem_append.1 mem with mem | mem
  · obtain ⟨u, hu, same⟩ := List.mem_map.1 mem
    exact h (Tool.var_injective same ▸ hu)
  · exact t.var_not_searchVar mem

theorem marked_not_targetVar (marked : ofText hostMark <+: k) : k ∉ targetVars host := by
  rw [targetVars_eq]
  intro mem
  obtain ⟨name, listed, rfl⟩ := List.mem_map.1 mem
  refine not_marked name (List.mem_append.2 ?_) marked
  rcases List.mem_append.1 listed with listed | listed
  · obtain ⟨t, -, rfl⟩ := List.mem_map.1 listed
    exact .inl (List.mem_map_of_mem t.mem_all)
  · exact .inr listed

theorem hostMark_append_not_targetVar (host : Os) (var : String) :
    ofText (hostMark ++ var) ∉ targetVars host := by
  rw [Bytes.ofText_append]
  exact marked_not_targetVar (List.prefix_append _ _)

end PinnedDeps
