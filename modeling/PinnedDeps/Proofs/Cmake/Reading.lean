import PinnedDeps.Proofs.Cmake.Arguments

/-!
The argument list of a configure step read back. The definitions that stand in it are those that were
made, in their order. Definitions that are made one after another replace those that were there before
and leave all other keys where and as they were.
-/
namespace PinnedDeps.Cmake

/-- The key and the value that an argument defines; the key ends at the first equals sign. -/
def definition? (arg : String) : Option (String × String) :=
  match arg.toList with
  | '-' :: 'D' :: text =>
    if '=' ∈ text then
      some (String.ofList (text.takeWhile (· ≠ '=')), String.ofList (text.dropWhile (· ≠ '=')).tail)
    else none
  | _ => none

def definitions (args : List String) : List (String × String) := args.filterMap definition?

/-- What follows the option that chooses a generator. -/
def generator? : List String → Option String
  | [] => none
  | arg :: rest => if arg = "-G" then rest.head? else generator? rest

theorem definition?_eq_none {arg : String} (h : arg.toList.head? ≠ some '-') :
    definition? arg = none := by
  unfold definition?
  split
  · rename_i text shape
    rw [shape] at h
    exact absurd rfl h
  · rfl

theorem definition?_of_key {k : String} (hk : IsKey k) (v : String) :
    definition? s!"-D{k}={v}" = some (k, v) := by
  have text : (s!"-D{k}={v}").toList = '-' :: 'D' :: (k.toList ++ '=' :: v.toList) := by
    simp [toString]
  have front : ∀ c ∈ k.toList, (decide (c ≠ '=')) = true := by
    simpa using fun c hc => ne_of_mem_of_not_mem hc hk
  unfold definition?
  rw [text]
  simp only
  rw [if_pos (by simp), List.takeWhile_append_of_pos front, List.dropWhile_append_of_pos front]
  simp

namespace Arguments

variable {a : Arguments} {dir : Path} {k v : String} {es : List (String × String)}

/-- Arguments of which an argument list is read back. -/
structure Readable (a : Arguments) : Prop where
  source : a.sourceDir.isAbsolute = true
  keys : ∀ k ∈ a.defines.map Prod.fst, IsKey k
  generator : ∀ g ∈ a.generator, definition? g = none

/-- Behind the source directory, whatever that is, stand the definitions that were made. -/
theorem definitions_tail (keys : ∀ k ∈ a.defines.map Prod.fst, IsKey k)
    (generator : ∀ g ∈ a.generator, definition? g = none) : definitions a.toList.tail = a.defines := by
  have made : (a.defines.map fun e => s!"-D{e.1}={e.2}").filterMap definition? = a.defines := by
    rw [List.filterMap_map]
    refine (List.filterMap_congr fun e he => ?_).trans List.filterMap_some
    exact definition?_of_key (keys _ (List.mem_map_of_mem he)) _
  unfold definitions toList
  rw [List.cons_append, List.tail_cons, List.filterMap_append, made]
  cases hg : a.generator with
  | none => simp
  | some g =>
    have mark : definition? "-G" = none := by decide
    simp [mark, generator g hg]

theorem definitions_toList (h : a.Readable) : definitions a.toList = a.defines := by
  have source : definition? a.sourceDir.shown = none :=
    definition?_eq_none (head_shown_of_absolute h.source)
  exact (List.filterMap_cons_none source).trans (definitions_tail h.keys h.generator)

theorem generator?_toList (h : a.Readable) : generator? a.toList = a.generator := by
  have head : a.sourceDir.shown ≠ "-G" := by
    intro same
    have := head_shown_of_absolute h.source
    rw [same] at this
    exact this rfl
  have skip : ∀ (es : List (String × String)) (rest : List String),
      generator? (es.map (fun e => s!"-D{e.1}={e.2}") ++ rest) = generator? rest := by
    intro es rest
    induction es with
    | nil => rfl
    | cons e es ih =>
      have other : s!"-D{e.1}={e.2}" ≠ "-G" := by
        intro same
        have := congrArg String.toList same
        simp [toString] at this
      rw [List.map_cons, List.cons_append, generator?, if_neg other, ih]
  unfold toList
  rw [List.cons_append, generator?, if_neg head, skip]
  cases a.generator <;> rfl

/-- Makes definitions one after another. -/
def defineAll (a : Arguments) (es : List (String × String)) : Arguments :=
  es.foldl (fun a e => a.define e.1 e.2) a

theorem defineTools_eq (a : Arguments) (view : View) (env : Environ) (tools : List (String × Tool)) :
    a.defineTools view env tools = a.defineAll (tools.map fun e => (e.1, e.2.resolve view env)) := by
  unfold defineTools defineAll
  rw [List.foldl_map]
  rfl

theorem defineAll_append (a : Arguments) (es fs : List (String × String)) :
    a.defineAll (es ++ fs) = (a.defineAll es).defineAll fs := List.foldl_append

theorem get?_defineAll (a : Arguments) (distinct : (es.map Prod.fst).Nodup) (k : String) :
    (a.defineAll es).get? k = (es.lookup k).or (a.get? k) := by
  refine (Pairs.foldl_lookup get? _ (fun v _ => some v) (fun a e k => get?_define a e.1 e.2 k) distinct
    a k).trans ?_
  cases es.lookup k <;> rfl

/-- What a definition preserves is preserved by many. -/
theorem defineAll_preserves {P : Arguments → Prop} (h : P a) (es : List (String × String))
    (each : ∀ a k v, P a → P (a.define k v)) : P (a.defineAll es) := by
  unfold defineAll
  induction es generalizing a with
  | nil => exact h
  | cons e es ih => exact ih (each a e.1 e.2 h)

/-- Keys that were there stand first, in their order. -/
theorem keys_defineAll (a : Arguments) (es : List (String × String)) :
    a.defines.map Prod.fst <+: (a.defineAll es).defines.map Prod.fst := by
  refine defineAll_preserves (P := fun b => a.defines.map Prod.fst <+: b.defines.map Prod.fst)
    (List.prefix_refl _) es fun b k v h => h.trans ?_
  rw [define, keys_assign]
  split
  · exact List.prefix_refl _
  · exact List.prefix_append _ _

theorem nodup_defineAll (h : (a.defines.map Prod.fst).Nodup) (es : List (String × String)) :
    ((a.defineAll es).defines.map Prod.fst).Nodup :=
  defineAll_preserves (P := fun b => (b.defines.map Prod.fst).Nodup) h es
    fun _ k v distinct => nodup_keys_assign k v distinct

theorem mem_keys_defineAll (h : k ∈ (a.defineAll es).defines.map Prod.fst) :
    k ∈ es.map Prod.fst ∨ k ∈ a.defines.map Prod.fst := by
  unfold defineAll at h
  induction es generalizing a with
  | nil => exact .inr h
  | cons e es ih =>
    rcases ih h with h | h
    · exact .inl (List.mem_cons_of_mem _ h)
    · rcases mem_keys_define h with rfl | h
      · exact .inl (by simp)
      · exact .inr h

theorem sourceDir_defineAll (a : Arguments) (es : List (String × String)) :
    (a.defineAll es).sourceDir = a.sourceDir :=
  defineAll_preserves (P := fun b => b.sourceDir = a.sourceDir) rfl es fun _ _ _ same => same

theorem generator_defineAll (a : Arguments) (es : List (String × String)) :
    (a.defineAll es).generator = a.generator :=
  defineAll_preserves (P := fun b => b.generator = a.generator) rfl es fun _ _ _ same => same

theorem Readable.defineAll (h : a.Readable) (keys : ∀ k ∈ es.map Prod.fst, IsKey k) :
    (a.defineAll es).Readable where
  source := by rw [sourceDir_defineAll]; exact h.source
  keys k hk := (mem_keys_defineAll hk).elim (keys k) (h.keys k)
  generator := by rw [generator_defineAll]; exact h.generator

variable {view : View} {env : Environ} {tools : List (String × Tool)} {e : String × Tool}

theorem get?_defineTools_of_mem (distinct : (tools.map Prod.fst).Nodup) (he : e ∈ tools) :
    (a.defineTools view env tools).get? e.1 = some (e.2.resolve view env) := by
  have keys : ((tools.map fun e => (e.1, e.2.resolve view env)).map Prod.fst).Nodup := by
    simpa [Function.comp_def] using distinct
  rw [defineTools_eq, get?_defineAll a keys,
    Pairs.lookup_of_mem keys (List.mem_map.2 ⟨e, he, rfl⟩)]
  rfl

theorem defineTools_append (a : Arguments) (view : View) (env : Environ) (ts us : List (String × Tool)) :
    (a.defineTools view env ts).defineTools view env us = a.defineTools view env (ts ++ us) :=
  List.foldl_append.symm

theorem nodup_toolKeys (os : Os) : ((binutils ++ platformTools os).map Prod.fst).Nodup := by
  cases os <;> decide

theorem get?_release (dir pre : Path) (host : Os) (he : e ∈ binutils ++ platformTools host) :
    (release view dir pre env host).get? e.1 = some (e.2.resolve view env) := by
  have told : ((releaseWithBinutils view dir pre env).defineTools view env (platformTools host)).get? e.1 =
      some (e.2.resolve view env) := by
    unfold releaseWithBinutils
    rw [defineTools_append]
    exact get?_defineTools_of_mem (nodup_toolKeys host) he
  unfold release
  cases host with
  | linux => exact told
  | macos => exact told
  | windows =>
    have other : ∀ e ∈ binutils ++ platformTools .windows, e.1 ≠ "CMAKE_SH" := by decide
    rw [get?_define, if_neg (other e he)]
    exact told

/-- What is defined stands in the argument list. -/
theorem mem_definitions_toList (hk : IsKey k) (h : a.get? k = some v) :
    (k, v) ∈ definitions a.toList := by
  have told : s!"-D{k}={v}" ∈ a.defines.map fun e => s!"-D{e.1}={e.2}" :=
    List.mem_map.2 ⟨(k, v), Pairs.mem_of_lookup h, rfl⟩
  refine List.mem_filterMap.2 ⟨s!"-D{k}={v}", ?_, definition?_of_key hk v⟩
  exact List.mem_append_left _ (List.mem_cons_of_mem _ told)

end Arguments
end PinnedDeps.Cmake
