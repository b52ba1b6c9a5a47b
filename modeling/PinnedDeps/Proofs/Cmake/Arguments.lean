import Mathlib.Data.List.Basic
import PinnedDeps.Cmake
import PinnedDeps.Proofs.Path

/-!
The arguments of a configure step as the program reads them. Keys hold no equals sign, so that an
argument assigns one key only, and a key that is defined is defined by one argument.
-/
namespace PinnedDeps.Cmake

/-- The text that an argument starts with if it assigns a key. -/
def assigning (k : String) : String := s!"-D{k}="

/-- Whether an argument assigns a key. -/
def assigns (k arg : String) : Bool := (assigning k).toList.isPrefixOf arg.toList

/-- A text that can be the key of a definition. -/
def IsKey (k : String) : Prop := '=' ∉ k.toList

instance (k : String) : Decidable (IsKey k) := inferInstanceAs (Decidable (¬ _))

theorem key_of_append_eq {a b x y : List Char} (ha : '=' ∉ a) (hb : '=' ∉ b)
    (h : a ++ '=' :: x = b ++ '=' :: y) : a = b := by
  have same := congrArg (List.takeWhile (· ≠ '=')) h
  rw [List.takeWhile_append_of_pos, List.takeWhile_append_of_pos] at same
  · simpa using same
  · simpa using fun c hc => ne_of_mem_of_not_mem hc hb
  · simpa using fun c hc => ne_of_mem_of_not_mem hc ha

theorem assigns_iff {k j v : String} (hk : IsKey k) (hj : IsKey j) :
    assigns k s!"-D{j}={v}" = true ↔ j = k := by
  unfold assigns assigning
  rw [List.isPrefixOf_iff_prefix]
  constructor
  · rintro ⟨rest, h⟩
    have : k.toList ++ '=' :: rest = j.toList ++ '=' :: v.toList := by simpa [toString] using h
    exact String.toList_inj.1 (key_of_append_eq hj hk this.symm)
  · rintro rfl
    exact ⟨v.toList, by simp [toString]⟩

/-- Of definitions with different keys, one has the key that is looked up. -/
theorem filter_of_lookup {es : List (String × String)} {k v : String}
    (distinct : (es.map Prod.fst).Nodup) (h : es.lookup k = some v) :
    es.filter (fun e => e.1 = k) = [(k, v)] := by
  induction es with
  | nil => cases h
  | cons e rest ih =>
    rw [List.map_cons, List.nodup_cons] at distinct
    rw [Pairs.lookup_cons_if] at h
    by_cases same : k = e.1
    · rw [if_pos same] at h
      have none_else : rest.filter (fun e => e.1 = k) = [] := by
        rw [List.filter_eq_nil_iff]
        intro x hx hk
        have : x.1 = k := by simpa using hk
        exact distinct.1 (same ▸ this ▸ List.mem_map_of_mem hx)
      rw [List.filter_cons_of_pos (by simpa using same.symm), none_else]
      obtain ⟨j, u⟩ := e
      cases h
      rw [same]
    · rw [if_neg same] at h
      rw [List.filter_cons_of_neg (by simpa using Ne.symm same)]
      exact ih distinct.2 h

namespace Arguments

/-- Arguments for a source directory and an install prefix. -/
structure Names (dir pre : Path) (a : Arguments) : Prop where
  source : a.sourceDir = dir
  into : a.get? installPrefix = some pre.shown
  distinct : (a.defines.map Prod.fst).Nodup
  keys : ∀ k ∈ a.defines.map Prod.fst, IsKey k
  generator : ∀ g ∈ a.generator, assigns installPrefix g = false

variable {a : Arguments} {dir pre : Path} {k v : String}

theorem mem_keys_define {j : String} (h : j ∈ (a.define k v).defines.map Prod.fst) :
    j = k ∨ j ∈ a.defines.map Prod.fst := by
  rw [define, keys_assign] at h
  split at h
  · exact .inr h
  · rw [List.mem_append, List.mem_singleton] at h
    exact h.symm

theorem Names.define (h : a.Names dir pre) (hk : IsKey k) (hne : k ≠ installPrefix) :
    (a.define k v).Names dir pre where
  source := h.source
  into := by rw [get?_define, if_neg (Ne.symm hne)]; exact h.into
  distinct := nodup_keys_assign k v h.distinct
  keys j hj := by
    rcases mem_keys_define hj with rfl | hj
    · exact hk
    · exact h.keys j hj
  generator := h.generator

/-- The prefix is replaced where it stands. -/
theorem Names.redirect (h : a.Names dir pre) (other : Path) :
    (a.define installPrefix other.shown).Names dir other where
  source := h.source
  into := by rw [get?_define, if_pos rfl]
  distinct := nodup_keys_assign _ _ h.distinct
  keys j hj := by
    rcases mem_keys_define hj with rfl | hj
    · decide
    · exact h.keys j hj
  generator := h.generator

theorem Names.defineTools {view : View} {env : Environ} {tools : List (String × Tool)}
    (h : a.Names dir pre) (ht : ∀ e ∈ tools, IsKey e.1 ∧ e.1 ≠ installPrefix) :
    (a.defineTools view env tools).Names dir pre := by
  unfold Arguments.defineTools
  induction tools generalizing a with
  | nil => exact h
  | cons e rest ih =>
    obtain ⟨hk, hne⟩ := ht e (by simp)
    exact ih (h.define hk hne) fun x hx => ht x (by simp [hx])

theorem Names.binutils {view : View} {env : Environ} (h : a.Names dir pre) :
    (a.defineTools view env binutils).Names dir pre := h.defineTools (by decide)

theorem Names.platformTools {view : View} {env : Environ} (h : a.Names dir pre) (os : Os) :
    (a.defineTools view env (platformTools os)).Names dir pre :=
  h.defineTools (by cases os <;> decide)

theorem Names.crossCompile (h : a.Names dir pre) (target : Os) (processor : String) :
    (a.crossCompile target processor).Names dir pre :=
  ((h.define (by decide) (by decide)).define (by decide) (by decide)).define (by decide) (by decide)

theorem names_releaseWithBinutils (view : View) (dir pre : Path) (env : Environ) :
    (releaseWithBinutils view dir pre env).Names dir pre := by
  refine Names.binutils ⟨rfl, ?_, ?_, ?_, ?_⟩
  · rw [get?_define, if_pos rfl]
  · exact nodup_keys_assign _ _ (nodup_keys_assign _ _ List.nodup_nil)
  · show ∀ k ∈ ["CMAKE_BUILD_TYPE", "CMAKE_INSTALL_PREFIX"], IsKey k
    decide
  · intro g hg
    cases hg

theorem names_release (view : View) (dir pre : Path) (env : Environ) (host : Os) :
    (release view dir pre env host).Names dir pre := by
  have tooled : ((releaseWithBinutils view dir pre env).defineTools view env
      (platformTools host)).Names dir pre := (names_releaseWithBinutils view dir pre env).platformTools host
  cases host with
  | linux => exact tooled
  | macos => exact tooled
  | windows =>
    refine Names.define ⟨tooled.source, tooled.into, tooled.distinct, tooled.keys, ?_⟩
      (by decide) (by decide)
    rintro g ⟨⟩
    decide

/-- One argument assigns the prefix, unless the source directory looks like one. -/
theorem Names.filter_toList (h : a.Names dir pre) (hdir : assigns installPrefix dir.shown = false) :
    a.toList.filter (assigns installPrefix) = [assigning installPrefix ++ pre.shown] := by
  have key : IsKey installPrefix := by decide
  have defs : (a.defines.map fun e => s!"-D{e.1}={e.2}").filter (assigns installPrefix) =
      [assigning installPrefix ++ pre.shown] := by
    have one : (a.defines.filter fun e => assigns installPrefix s!"-D{e.1}={e.2}") =
        [(installPrefix, pre.shown)] := by
      rw [← filter_of_lookup h.distinct h.into]
      refine List.filter_congr fun e he => ?_
      rw [Bool.eq_iff_iff, assigns_iff key (h.keys _ (List.mem_map_of_mem he)), decide_eq_true_iff]
    rw [List.filter_map]
    exact congrArg _ one
  rw [toList, h.source, List.filter_append, List.filter_cons_of_neg (by simp [hdir]), defs]
  cases hg : a.generator with
  | none => rfl
  | some g =>
    have mark : assigns installPrefix "-G" = false := by decide
    simp [mark, h.generator g hg]

theorem Names.head_toList (h : a.Names dir pre) : a.toList.head? = some dir.shown :=
  congrArg (fun p : Path => some p.shown) h.source

end Arguments

theorem head_ofText_of_dash {s : String} (h : s.toList.head? = some '-') :
    (Bytes.ofText s).head? = some 0x2d := by
  obtain ⟨rest, h⟩ := List.head?_eq_some_iff.1 h
  have : s = "-" ++ String.ofList rest := String.toList_inj.1 (by simpa using h)
  rw [this, Bytes.ofText_append]
  rfl

/-- An absolute path does not look like an option. -/
theorem head_shown_of_absolute {p : Path} (h : p.isAbsolute = true) :
    p.shown.toList.head? ≠ some '-' := by
  intro looks
  have slashed := Path.isAbsolute_shown h
  rw [Path.isAbsolute, Path.ofText, head_ofText_of_dash looks] at slashed
  cases slashed

/-- An absolute path does not look like a definition. -/
theorem assigns_absolute {p : Path} (k : String) (h : p.isAbsolute = true) :
    assigns k p.shown = false := by
  rw [Bool.eq_false_iff]
  intro looks
  obtain ⟨rest, looks⟩ := List.isPrefixOf_iff_prefix.1 looks
  refine head_shown_of_absolute h ?_
  rw [← looks]
  simp [assigning, toString]

end PinnedDeps.Cmake
