import Mathlib.Data.List.Induction
import PinnedDeps.Proofs.Cmake.Reading

/-!
Arguments as an ordered map. Whatever arguments begin with and however they are edited, every key that
was ever defined stands once, where it was defined first and with the value it was given last, and the
generator that was set last follows.
-/
namespace PinnedDeps.Cmake

variable {a : Arguments} {es made : List (String × String)} {k v : String}

/-- The keys in the order in which they were first defined. -/
def firstKeys (made : List (String × String)) : List String := (made.map Prod.fst).eraseDups

def lastValue? (made : List (String × String)) (k : String) : Option String := made.reverse.lookup k

/-- What a sequence of definitions comes to. -/
def settled (made : List (String × String)) : List (String × String) :=
  (firstKeys made).filterMap fun k => (lastValue? made k).map fun v => (k, v)

theorem firstKeys_concat (made : List (String × String)) (e : String × String) :
    firstKeys (made ++ [e]) =
      if e.1 ∈ made.map Prod.fst then firstKeys made else firstKeys made ++ [e.1] := by
  unfold firstKeys
  rw [List.map_append, List.eraseDups_append]
  by_cases h : e.1 ∈ made.map Prod.fst
  · have known : [e.1].removeAll (made.map Prod.fst) = [] := by
      simpa [List.removeAll] using h
    rw [if_pos h, show [e].map Prod.fst = [e.1] from rfl, known, List.eraseDups_nil, List.append_nil]
  · have new : [e.1].removeAll (made.map Prod.fst) = [e.1] := by
      simpa [List.removeAll] using h
    rw [if_neg h, show [e].map Prod.fst = [e.1] from rfl, new]
    rfl

theorem lastValue?_concat (made : List (String × String)) (e : String × String) (k : String) :
    lastValue? (made ++ [e]) k = if k = e.1 then some e.2 else lastValue? made k := by
  unfold lastValue?
  rw [List.reverse_concat, Pairs.lookup_cons_if]

/-- Pairs with different keys are found again by their keys. -/
theorem filterMap_lookup (distinct : (es.map Prod.fst).Nodup) :
    (es.map Prod.fst).filterMap (fun k => (es.lookup k).map fun v => (k, v)) = es := by
  rw [List.filterMap_map]
  refine (List.filterMap_congr fun e he => ?_).trans List.filterMap_some
  show (es.lookup e.1).map (fun v => (e.1, v)) = some e
  rw [Pairs.lookup_of_mem distinct he, Option.map_some]

/-- The arguments hold what a sequence of definitions comes to. -/
structure Holds (a : Arguments) (made : List (String × String)) : Prop where
  keys : a.defines.map Prod.fst = firstKeys made
  values : ∀ k, a.get? k = lastValue? made k
  distinct : (a.defines.map Prod.fst).Nodup

theorem Holds.defines (h : Holds a made) : a.defines = settled made := by
  rw [← filterMap_lookup h.distinct, h.keys]
  exact List.filterMap_congr fun k _ => congrArg _ (h.values k)

theorem holds_ofSource (dir : Path) : Holds (.ofSource dir) [] :=
  ⟨rfl, fun _ => rfl, List.nodup_nil⟩

theorem Holds.define (h : Holds a made) (k v : String) : Holds (a.define k v) (made ++ [(k, v)]) where
  keys := by
    have known : k ∈ a.defines.map Prod.fst ↔ k ∈ made.map Prod.fst := by
      rw [h.keys, firstKeys, List.mem_eraseDups]
    rw [firstKeys_concat, ← h.keys, Arguments.define, keys_assign]
    simp only [known]
  values j := by rw [Arguments.get?_define, lastValue?_concat, h.values]
  distinct := nodup_keys_assign k v h.distinct

theorem Holds.defineAll (h : Holds a made) (es : List (String × String)) :
    Holds (a.defineAll es) (made ++ es) := by
  unfold Arguments.defineAll
  induction es generalizing a made with
  | nil => rwa [List.append_nil]
  | cons e es ih =>
    rw [List.append_cons]
    exact ih (h.define e.1 e.2)

/-- A change to arguments. Tools are looked up in what is there at the time. -/
inductive Edit where
  | define (k v : String)
  | generator (g : String)
  | binutils (view : View) (env : Environ)
  | platformTools (os : Os) (view : View) (env : Environ)
  | crossCompile (target : Os) (processor : String)

namespace Edit

def apply (a : Arguments) : Edit → Arguments
  | define k v => a.define k v
  | generator g => a.withGenerator g
  | binutils view env => a.defineTools view env Arguments.binutils
  | platformTools os view env => a.defineTools view env (Arguments.platformTools os)
  | crossCompile target processor => a.crossCompile target processor

/-- The definitions that an edit makes, in their order. -/
def definitions : Edit → List (String × String)
  | define k v => [(k, v)]
  | generator _ => []
  | binutils view env => Arguments.binutils.map fun e => (e.1, e.2.resolve view env)
  | platformTools os view env => (Arguments.platformTools os).map fun e => (e.1, e.2.resolve view env)
  | crossCompile target processor =>
    [("CMAKE_CROSSCOMPILING", "TRUE"), ("CMAKE_SYSTEM_NAME", target.cmakeName),
      ("CMAKE_SYSTEM_PROCESSOR", processor)]

def generator? : Edit → Option String
  | generator g => some g
  | _ => none

/-- An edit makes its definitions one after another, and may set the generator. -/
theorem apply_eq (a : Arguments) (x : Edit) :
    x.apply a = { a.defineAll x.definitions with generator := x.generator?.or a.generator } := by
  cases x with
  | define | generator | crossCompile => rfl
  | binutils view env => exact Arguments.defineTools_eq a view env Arguments.binutils
  | platformTools os view env =>
    cases os <;> exact Arguments.defineTools_eq a view env _

theorem holds_apply (h : Holds a made) (x : Edit) : Holds (x.apply a) (made ++ x.definitions) := by
  have defined := h.defineAll x.definitions
  rw [apply_eq]
  exact ⟨defined.keys, defined.values, defined.distinct⟩

end Edit

def editAll (a : Arguments) (xs : List Edit) : Arguments := xs.foldl Edit.apply a

/-- The definitions of a sequence of edits. -/
def definitionsOf (xs : List Edit) : List (String × String) := xs.flatMap Edit.definitions

/-- The generator that a sequence of edits sets last. -/
def lastGenerator? (xs : List Edit) : Option String := (xs.filterMap Edit.generator?).getLast?

theorem editAll_append (a : Arguments) (xs ys : List Edit) :
    editAll a (xs ++ ys) = editAll (editAll a xs) ys := List.foldl_append

/-- Edits change the arguments as an ordered map is changed. -/
theorem editAll_holds (dir : Path) (xs : List Edit) :
    (editAll (.ofSource dir) xs).sourceDir = dir ∧
      Holds (editAll (.ofSource dir) xs) (definitionsOf xs) ∧
      (editAll (.ofSource dir) xs).generator = lastGenerator? xs := by
  induction xs using List.reverseRecOn with
  | nil => exact ⟨rfl, holds_ofSource dir, rfl⟩
  | append_singleton xs x ih =>
    obtain ⟨source, holds, generator⟩ := ih
    rw [show editAll (.ofSource dir) (xs ++ [x]) = x.apply (editAll (.ofSource dir) xs) from
      editAll_append _ xs [x]]
    refine ⟨?_, ?_, ?_⟩
    · rw [Edit.apply_eq]
      exact (Arguments.sourceDir_defineAll _ _).trans source
    · have applied := Edit.holds_apply holds x
      simpa [definitionsOf, List.flatMap_append] using applied
    · rw [Edit.apply_eq, lastGenerator?, List.filterMap_append, List.getLast?_append]
      show x.generator?.or _ = _
      rw [generator]
      cases hx : x.generator? <;> simp [hx, lastGenerator?]

/-- What arguments begin with: nothing, or a release build into a prefix. -/
inductive Start where
  | ofSource
  | releaseWithBinutils (view : View) (pre : Path) (env : Environ)
  | release (view : View) (pre : Path) (env : Environ) (host : Os)

namespace Start

def arguments (dir : Path) : Start → Arguments
  | ofSource => .ofSource dir
  | releaseWithBinutils view pre env => .releaseWithBinutils view dir pre env
  | release view pre env host => .release view dir pre env host

/-- The edits that lead to a beginning. -/
def edits : Start → List Edit
  | ofSource => []
  | releaseWithBinutils view pre env =>
    [.define "CMAKE_BUILD_TYPE" "Release", .define Arguments.installPrefix pre.shown,
      .binutils view env]
  | release view pre env host =>
    [.define "CMAKE_BUILD_TYPE" "Release", .define Arguments.installPrefix pre.shown,
      .binutils view env, .platformTools host view env] ++
      if host = .windows then [.generator "MinGW Makefiles", .define "CMAKE_SH" "CMAKE_SH-NOTFOUND"]
      else []

theorem arguments_eq (dir : Path) (st : Start) : st.arguments dir = editAll (.ofSource dir) st.edits := by
  cases st with
  | ofSource | releaseWithBinutils => rfl
  | release view pre env host => cases host <;> rfl

end Start

/-- The argument list names the source directory, then defines every key that was ever defined once, in
the order of the first definitions and with the value of the last one, and ends with the last generator
if one was set. A key is looked up as its last value. -/
theorem toList_editAll (st : Start) (dir : Path) (xs : List Edit) :
    let a := editAll (st.arguments dir) xs
    let made := definitionsOf (st.edits ++ xs)
    a.toList = dir.shown :: (settled made).map (fun e => s!"-D{e.1}={e.2}") ++
      (lastGenerator? (st.edits ++ xs)).toList.flatMap (fun g => ["-G", g]) ∧
    (settled made).map Prod.fst = firstKeys made ∧ (firstKeys made).Nodup ∧
    (∀ e ∈ settled made, lastValue? made e.1 = some e.2) ∧
    ∀ k, a.get? k = lastValue? made k := by
  intro a made
  have edited : a = editAll (.ofSource dir) (st.edits ++ xs) := by
    rw [editAll_append, ← st.arguments_eq dir]
  obtain ⟨source, holds, generator⟩ := editAll_holds dir (st.edits ++ xs)
  rw [← edited] at source holds generator
  refine ⟨?_, ?_, holds.keys ▸ holds.distinct, fun e he => ?_, holds.values⟩
  · unfold Arguments.toList
    rw [source, holds.defines, generator]
    cases lastGenerator? (st.edits ++ xs) <;> rfl
  · rw [← holds.defines, holds.keys]
  · rw [← holds.defines] at he
    rw [← holds.values]
    exact Pairs.lookup_of_mem holds.distinct he

/-- The keys of the edits that define tools. -/
example (view : View) (env : Environ) :
    (Edit.binutils view env).definitions.map Prod.fst =
      ["CMAKE_RANLIB", "CMAKE_AR", "CMAKE_LINKER", "CMAKE_STRIP"] ∧
    (Edit.platformTools .windows view env).definitions.map Prod.fst = ["CMAKE_RC_COMPILER"] ∧
    (Edit.platformTools .macos view env).definitions.map Prod.fst =
      ["CMAKE_INSTALL_NAME_TOOL", "CMAKE_OTOOL"] := ⟨rfl, rfl, rfl⟩

/-- A key that is defined again keeps its place and takes the new value. -/
example : (editAll (.ofSource "/src") [.define "A" "1", .define "B" "2", .define "A" "3"]).toList =
    ["/src", "-DA=3", "-DB=2"] := by decide +kernel

end PinnedDeps.Cmake
