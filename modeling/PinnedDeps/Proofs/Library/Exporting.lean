import PinnedDeps.Proofs.Environ
import PinnedDeps.Proofs.Library.Prefix

/-!
What later builds are told of a library. A table says which variable names which directory of which
prefix. The overlay puts exactly these directories in front and keeps all else to the byte, and a
sequence of overlays leaves the directories in the opposite order in front of the first value.
-/
namespace PinnedDeps

open Bytes (ofText)

namespace Library

variable {lib : Library} {deps : Path} {target : Option Os} {host : Os}

/-- A list variable that names a directory below the prefix of a phase. -/
structure Offer where
  var : String
  phase : Phase
  below : List String
  deriving DecidableEq

def Offer.dir (x : Offer) (lib : Library) (deps : Path) : Path :=
  x.below.foldl (· / ·) (x.phase.installDir lib deps)

/-- Where a library installs the files that `pkg-config` reads. -/
def pkgConfig : Library → List String
  | zlib => ["share", "pkgconfig"]
  | brotli => ["lib", "pkgconfig"]

/-- What a compiler finds a library with; the variables may have a mark in front. -/
def searched (lib : Library) (mark : String) (phase : Phase) : List Offer :=
  [⟨mark ++ "CPATH", phase, ["include"]⟩, ⟨mark ++ "LIBRARY_PATH", phase, ["lib"]⟩,
    ⟨mark ++ "PKG_CONFIG_PATH", phase, lib.pkgConfig⟩]

/-- In a cross build of zlib the variables with the mark of the host name the prefix for the host,
and also its programs; the others name the prefix for the target. Every other build has one prefix. -/
def offers (lib : Library) (cross : Bool) : List Offer :=
  if lib = zlib ∧ cross then
    [⟨hostMark ++ "PATH", .host, ["bin"]⟩, ⟨hostMark ++ "LD_LIBRARY_PATH", .host, ["lib"]⟩] ++
      (lib.searched hostMark .host ++ lib.searched "" .target)
  else lib.searched "" .native

/-- The overlay takes its directories from the table, in an order of its own. -/
theorem exports_perm (lib : Library) (deps : Path) (target : Option Os) (host : Os) :
    (lib.exports deps target host).Perm
      ((lib.offers (isCross target host)).map fun x => (x.var, x.dir lib deps)) := by
  unfold exports offers
  cases lib with
  | brotli => exact ((List.Perm.swap _ _ _).cons _).trans (List.Perm.swap _ _ _)
  | zlib =>
    cases isCross target host with
    | true => exact ((List.Perm.swap _ _ _).cons _).cons _
    | false => exact List.Perm.refl _

theorem lookup_offer {x : Offer} (hx : x ∈ lib.offers (isCross target host)) :
    (lib.exports deps target host).lookup x.var = some (x.dir lib deps) :=
  Pairs.lookup_of_mem (nodup_exports lib deps target host)
    ((exports_perm lib deps target host).mem_iff.2 (List.mem_map_of_mem hx))

theorem offers_ne_root (lib : Library) (cross : Bool) : ∀ x ∈ lib.offers cross, x.var ≠ zlibRootVar := by
  cases lib <;> cases cross <;> decide

theorem get?_prependAll_other (env : Environ) (sep : String) {es : List Export} {k : Bytes}
    (h : ∀ e ∈ es, ofText e.1 ≠ k) : (env.prependAll sep es).get? k = env.get? k := by
  unfold Environ.prependAll
  induction es generalizing env with
  | nil => rfl
  | cons e rest ih =>
    rw [List.foldl_cons, ih _ fun x hx => h x (by simp [hx]), Environ.get?_prepend,
      if_neg fun same => h e (by simp) same.symm]

section Overlay

variable (base : Environ)

/-- What is put in front of a variable that no export names leaves the variable alone. -/
theorem get?_exports_other {k : Bytes} (h : ∀ x ∈ lib.offers (isCross target host), k ≠ ofText x.var) :
    (base.prependAll host.listSeparator (lib.exports deps target host)).get? k = base.get? k := by
  refine get?_prependAll_other base _ fun e he same => ?_
  obtain ⟨x, hx, rfl⟩ := List.mem_map.1 ((exports_perm lib deps target host).mem_iff.1 he)
  exact h x hx same.symm

theorem overlay_offer {x : Offer} (hx : x ∈ lib.offers (isCross target host)) :
    InFront host base (lib.overlay deps target host base) x.var (x.dir lib deps) :=
  inFront_of_export base (lookup_offer hx) (offers_ne_root lib _ x hx)

theorem overlay_root : (lib.overlay deps target host base).get? (ofText zlibRootVar) =
    if lib = zlib ∧ isCross target host then some (Phase.target.installDir lib deps).bytes
    else base.get? (ofText zlibRootVar) := by
  have front : (base.prependAll host.listSeparator (lib.exports deps target host)).get?
      (ofText zlibRootVar) = base.get? (ofText zlibRootVar) :=
    get?_exports_other base fun x hx same =>
      offers_ne_root lib _ x hx (Bytes.ofText_inj.1 same).symm
  unfold overlay rootDir?
  by_cases cross : lib = zlib ∧ isCross target host
  · rw [if_pos cross, if_pos cross]
    simp [Environ.get?_set]
  · rw [if_neg cross, if_neg cross]
    exact front

theorem overlay_other {k : Bytes} (root : k ≠ ofText zlibRootVar)
    (h : ∀ x ∈ lib.offers (isCross target host), k ≠ ofText x.var) :
    (lib.overlay deps target host base).get? k = base.get? k := by
  unfold overlay
  cases lib.rootDir? deps target host with
  | none => exact get?_exports_other base h
  | some dir =>
    simp only
    rw [Environ.get?_set, if_neg root]
    exact get?_exports_other base h

theorem overlay_keeps {k : Bytes} (h : (base.get? k).isSome) :
    ((lib.overlay deps target host base).get? k).isSome := by
  by_cases root : k = ofText zlibRootVar
  · subst root
    rw [overlay_root]
    split
    · rfl
    · exact h
  by_cases listed : ∃ x ∈ lib.offers (isCross target host), k = ofText x.var
  · obtain ⟨x, hx, rfl⟩ := listed
    rw [show _ = some _ from overlay_offer base hx]
    rfl
  · rw [overlay_other base root fun x hx same => listed ⟨x, hx, same⟩]
    exact h

end Overlay

/-- A library that later steps depend on, and where and for what it was built. -/
structure Dependence where
  lib : Library
  deps : Path
  target : Option Os
  host : Os

namespace Dependence

def overlay (d : Dependence) (base : Environ) : Environ :=
  d.lib.overlay d.deps d.target d.host base

/-- The directory that the table has for a variable. -/
def dir? (d : Dependence) (k : Bytes) : Option Path :=
  ((d.lib.offers (isCross d.target d.host)).find? fun x => k = ofText x.var).map (Offer.dir · d.lib d.deps)

/-- What is put in front of a variable, with the separator that follows if there was a value. -/
def part? (d : Dependence) (k : Bytes) : Option (Bytes × Bytes) :=
  (d.dir? k).map fun dir => (dir.bytes, ofText d.host.listSeparator)

end Dependence

/-- Directories in front of a value, the first in front of all others. -/
def stack : List (Bytes × Bytes) → Option Bytes → Option Bytes
  | [], old => old
  | (dir, sep) :: parts, old =>
    some (match stack parts old with
      | none => dir
      | some rest => dir ++ sep ++ rest)

theorem stack_append (xs ys : List (Bytes × Bytes)) (old : Option Bytes) :
    stack (xs ++ ys) old = stack xs (stack ys old) := by
  induction xs with
  | nil => rfl
  | cons x xs ih => simp only [List.cons_append, stack, ih]

/-- The parts of a search path, which is unset without any. -/
def joined (sep : Bytes) (parts : List Bytes) : Option Bytes :=
  if parts = [] then none else some (sep.intercalate parts)

theorem stack_eq_joined (sep : Bytes) (dirs : List Bytes) (old : Option Bytes) :
    stack (dirs.map fun dir => (dir, sep)) old = joined sep (dirs ++ old.toList) := by
  induction dirs with
  | nil => cases old <;> simp [stack, joined]
  | cons dir dirs ih =>
    rw [List.map_cons, stack, ih, List.cons_append]
    unfold joined
    cases dirs ++ old.toList with
    | nil => simp
    | cons next rest => simp [List.intercalate_cons_cons]

theorem Dependence.get?_overlay (d : Dependence) (base : Environ) {k : Bytes}
    (root : k ≠ ofText zlibRootVar) :
    (d.overlay base).get? k = stack (d.part? k).toList (base.get? k) := by
  unfold Dependence.overlay Dependence.part? Dependence.dir?
  cases found : (d.lib.offers (isCross d.target d.host)).find? fun x => k = ofText x.var with
  | some x =>
    have hk : k = ofText x.var := by simpa using List.find?_some found
    rw [hk]
    exact overlay_offer base (List.mem_of_find?_eq_some found)
  | none =>
    exact overlay_other base root fun x hx => by simpa using List.find?_eq_none.1 found x hx

/-- Overlays applied one after another. -/
def overlays (ds : List Dependence) (base : Environ) : Environ :=
  ds.foldl (fun env d => d.overlay env) base

theorem get?_overlays (ds : List Dependence) (base : Environ) {k : Bytes}
    (root : k ≠ ofText zlibRootVar) :
    (overlays ds base).get? k = stack (ds.filterMap fun d => d.part? k).reverse (base.get? k) := by
  unfold overlays
  induction ds generalizing base with
  | nil => rfl
  | cons d ds ih =>
    rw [List.foldl_cons, ih, d.get?_overlay base root, List.filterMap_cons]
    cases d.part? k with
    | none => rfl
    | some part => rw [List.reverse_cons, stack_append]; rfl

theorem get?_overlays_of_host {host : Os} {ds : List Dependence} (same : ∀ d ∈ ds, d.host = host)
    (base : Environ) {k : Bytes} (root : k ≠ ofText zlibRootVar) :
    (overlays ds base).get? k = joined (ofText host.listSeparator)
      (((ds.filterMap fun d => d.dir? k).map Path.bytes).reverse ++ (base.get? k).toList) := by
  have parts : (ds.filterMap fun d => d.part? k) =
      ((ds.filterMap fun d => d.dir? k).map Path.bytes).map fun dir =>
        (dir, ofText host.listSeparator) := by
    rw [List.map_map, List.map_filterMap]
    refine List.filterMap_congr fun d hd => ?_
    rw [Dependence.part?, same d hd]
    rfl
  rw [get?_overlays ds base root, parts, ← List.map_reverse, stack_eq_joined]

/-- An overlay puts the directories of the table in front, names the prefix for the target in a cross
build of zlib, and keeps all else; so the pairs that it changes carry it over. After a sequence of
overlays a list variable holds the directories of the last one first and its old value last. -/
theorem overlay_exact (lib : Library) (deps : Path) (target : Option Os) (host : Os)
    (base : Environ) :
    let env := lib.overlay deps target host base
    (∀ x ∈ lib.offers (isCross target host), InFront host base env x.var (x.dir lib deps)) ∧
    env.get? (ofText zlibRootVar) = (if lib = zlib ∧ isCross target host then
      some (Phase.target.installDir lib deps).bytes else base.get? (ofText zlibRootVar)) ∧
    (∀ k, k ≠ ofText zlibRootVar → (∀ x ∈ lib.offers (isCross target host), k ≠ ofText x.var) →
      env.get? k = base.get? k) ∧
    (∀ k, (base.get? k).isSome → (env.get? k).isSome) ∧
    base.overlay (env.changedFrom base) = env ∧
    ∀ ds : List Dependence, ∀ k, k ≠ ofText zlibRootVar →
      (overlays ds base).get? k = stack (ds.filterMap fun d => d.part? k).reverse (base.get? k) ∧
      ∀ builder, (∀ d ∈ ds, d.host = builder) →
        (overlays ds base).get? k = joined (ofText builder.listSeparator)
          (((ds.filterMap fun d => d.dir? k).map Path.bytes).reverse ++ (base.get? k).toList) :=
  ⟨fun _ hx => overlay_offer base hx, overlay_root base,
    fun _ root h => overlay_other base root h, fun _ h => overlay_keeps base h,
    Environ.overlay_changedFrom fun _ h => overlay_keeps base h,
    fun ds _ root => ⟨get?_overlays ds base root, fun _ same => get?_overlays_of_host same base root⟩⟩

/-- An old value that is no text stays behind the directories of both libraries. -/
theorem overlay_exact_unreadable :
    let base := Environ.ofPairs [(ofText "CPATH", []), (ofText "LIBRARY_PATH", [0xff])]
    let ds := [⟨zlib, "/d", some .windows, .linux⟩, ⟨brotli, "/d", some .windows, .linux⟩]
    ofText "LIBRARY_PATH" ≠ ofText zlibRootVar ∧ (∀ d ∈ ds, Dependence.host d = .linux) ∧
      (overlays ds base).get? (ofText "LIBRARY_PATH") = some (ofText
        "/d/brotli-1.0.7.install/lib:/d/zlib-1.2.11.target.install/lib:" ++ [0xff]) ∧
      InFront .linux base (zlib.overlay "/d" (some .windows) .linux base) "CPATH"
        "/d/zlib-1.2.11.target.install/include" ∧
      (zlib.overlay "/d" (some .windows) .linux base).get? (ofText "CPATH") =
        some (ofText "/d/zlib-1.2.11.target.install/include:") ∧
      base.overlay ((zlib.overlay "/d" (some .windows) .linux base).changedFrom base) =
        zlib.overlay "/d" (some .windows) .linux base := by
  intro base ds
  have root : ofText "LIBRARY_PATH" ≠ ofText zlibRootVar := by decide +kernel
  have same : ∀ d ∈ ds, Dependence.host d = .linux := by simp [ds]
  obtain ⟨front, _, _, _, carried, sequence⟩ := overlay_exact zlib "/d" (some .windows) .linux base
  have headers := front ⟨"CPATH", .target, ["include"]⟩ (by decide +kernel)
  exact ⟨root, same, ((sequence ds _ root).2 .linux same).trans (by decide +kernel), headers,
    headers.trans (by decide +kernel), carried⟩

end Library
end PinnedDeps
