import PinnedDeps.Proofs.Library.Gating
import PinnedDeps.Proofs.Library.Swapping
import PinnedDeps.Proofs.Source.Commuting

/-!
What builds may change outside the directory of dependencies. They make directories on the ways to
it and to the installation, and beside these ways they put artifacts in the place of others; so the
ways stay free of links, and the next build finds them as the one before did.
-/
namespace PinnedDeps

open Bytes (ofText)
open PinnedDeps.Action Volume

namespace Volume

variable {v u : Volume} {ds : List Location} {names : List String} {top d l k : Location}
  {n : Bytes} {P : Volume → Prop} {R : Volume → Volume → Prop}

/-- A place is one of the given ones, or on the way to one. -/
def OnWay (ds : List Location) (l : Location) : Prop := ∃ d ∈ ds, Below d l

theorem OnWay.above (h : OnWay ds l) (hb : Below l k) : OnWay ds k := by
  obtain ⟨d, hd, below⟩ := h
  exact ⟨d, hd, below.trans hb⟩

/-- From inside a directory to outside, the way leads over the tail. -/
theorem Inside.below_tail (h : Inside l top) (hb : Below l k) (out : ¬ Inside k top) :
    Below l.tail k := by
  cases l with
  | nil =>
    obtain rfl := List.suffix_nil.1 hb
    exact absurd h out
  | cons n d =>
    rcases below_cons_iff.1 hb with rfl | below
    · exact absurd h out
    · exact below

/-- Outside a directory, only directories are new on the ways, and beside the ways only entries with
certain names have come or gone, none of them a directory. -/
def Alters (top : Location) (ds : List Location) (names : List String) (v u : Volume) : Prop :=
  ∀ l, ¬ Inside l top → u.lookup l = v.lookup l ∨
    (OnWay ds l ∧ v.lookup l = none ∧ u.lookup l = some .dir) ∨
    (¬ OnWay ds l ∧ (∃ n ∈ names, l.head? = some (ofText n)) ∧
      v.lookup l ≠ some .dir ∧ u.lookup l ≠ some .dir)

theorem Alters.refl (top : Location) (ds : List Location) (names : List String) (v : Volume) :
    Alters top ds names v v := fun _ _ => .inl rfl

theorem Alters.trans (v u x : Volume) (h : Alters top ds names v u) (g : Alters top ds names u x) :
    Alters top ds names v x := by
  intro l out
  rcases h l out with same | ⟨way, hv, hu⟩ | ⟨off, named, hv, hu⟩
  · rw [← same]
    exact g l out
  · rcases g l out with same | ⟨-, none, -⟩ | ⟨off, -⟩
    · exact .inr (.inl ⟨way, hv, same.trans hu⟩)
    · rw [hu] at none
      cases none
    · exact absurd way off
  · rcases g l out with same | ⟨way, -⟩ | ⟨-, -, -, hx⟩
    · exact .inr (.inr ⟨off, named, hv, same ▸ hu⟩)
    · exact absurd way off
    · exact .inr (.inr ⟨off, named, hv, hx⟩)

theorem Within.alters (h : Within top v u) : Alters top ds names v u := fun l out => .inl (h l out)

theorem Swap.alters {n : String} (h : Swap (ofText n :: d) v u) (mem : n ∈ names)
    (off : ¬ Inside (ofText n :: d) top → v.lookup (ofText n :: d) ≠ some .dir →
      ¬ OnWay ds (ofText n :: d)) : Alters top ds names v u := by
  intro l out
  by_cases here : l = ofText n :: d
  · subst here
    rcases h.2 with same | ⟨hv, hu⟩
    · exact .inl same
    · exact .inr (.inr ⟨off out hv, ⟨n, mem, rfl⟩, hv, hu⟩)
  · exact .inl (h.1 l here)

section Kept

variable (h : Alters top ds names v u) (out : ¬ Inside l top)
include h out

theorem Alters.dir (hl : v.lookup l = some .dir) : u.lookup l = some .dir := by
  rcases h l out with same | ⟨-, -, dir⟩ | ⟨-, -, notDir, -⟩
  · rw [same, hl]
  · exact dir
  · exact absurd hl notDir

theorem Alters.unlinked {t : Bytes} (way : OnWay ds l) (hl : v.lookup l ≠ some (.link t)) :
    u.lookup l ≠ some (.link t) := by
  rcases h l out with same | ⟨-, -, dir⟩ | ⟨off, -⟩
  · rw [same]
    exact hl
  · simp [dir]
  · exact absurd way off

end Kept

/-- From volumes with a property, a relation leads to volumes that have it too. -/
def Keeping (P : Volume → Prop) (R : Volume → Volume → Prop) (v u : Volume) : Prop :=
  P v → R v u ∧ P u

theorem Keeping.refl (hr : ∀ v, R v v) (v : Volume) : Keeping P R v v := fun h => ⟨hr v, h⟩

theorem Keeping.trans (ht : ∀ u v x, R u v → R v x → R u x) (u v x : Volume) (h : Keeping P R u v)
    (g : Keeping P R v x) : Keeping P R u x := by
  intro hu
  obtain ⟨first, hv⟩ := h hu
  obtain ⟨second, hx⟩ := g hv
  exact ⟨ht _ _ _ first second, hx⟩

/-- A name between a place and what lies below it is one of those that lead there. -/
theorem mem_of_between {r e : Location} {xs : List Bytes} (h : Below (xs.reverse ++ r) (n :: e))
    (off : ¬ Below r (n :: e)) : n ∈ xs := by
  obtain ⟨s, hs⟩ := below_iff.1 h
  rcases List.append_eq_append_iff.1 hs with ⟨a, -, rfl⟩ | ⟨a, inner, outer⟩
  · exact absurd (below_append a _) off
  · cases a with
    | nil => exact absurd (outer ▸ below_refl _) off
    | cons m a =>
      obtain ⟨rfl, -⟩ := List.cons.inj outer
      have : n ∈ xs.reverse := by simp [inner]
      exact List.mem_reverse.1 this

end Volume

namespace Layout

variable {lay : Layout} {deps p : Path} {cwd d l : Location} {names : List String} {v u : Volume}
  {o : Outside} {w w' : World}

/-- Where dependencies are kept and files are installed. -/
def ways (lay : Layout) (deps : Path) (cwd : Location) : List Location :=
  deps.place cwd :: lay.places cwd

/-- What builds that install files with these names may change. -/
abbrev Alters (lay : Layout) (deps : Path) (cwd : Location) (names : List String) :
    Volume → Volume → Prop :=
  Volume.Alters (deps.place cwd) (lay.ways deps cwd) names

/-- All paths lead down, and files are installed in one directory or in two beside each other, apart
from the dependencies. -/
structure Sited (lay : Layout) (deps : Path) (cwd : Location) : Prop where
  descends : ∀ p ∈ [deps, lay.root, lay.lib, lay.bin], p.Descends
  relative : lay.lib.isAbsolute = false ∧ lay.bin.isAbsolute = false
  apart : ∀ d ∈ lay.places cwd, ¬ Below (deps.place cwd) d ∧ ¬ Below d (deps.place cwd)
  beside : ∀ d ∈ lay.places cwd, ∀ e ∈ lay.places cwd, Below d e → d = e

/-- Everything stands in directories, the paths start from some, and no link stands on the ways. -/
structure Clear (lay : Layout) (deps : Path) (cwd : Location) (v : Volume) : Prop where
  upright : Upright v
  starts : ∀ p ∈ [deps, lay.root], v.lookup (startOf cwd p.bytes) = some .dir
  linkless : ∀ d ∈ lay.ways deps cwd, Linkless d v

/-- Moreover, the directory of the dependencies and the root have been made. -/
structure Settled (lay : Layout) (deps : Path) (cwd : Location) (v : Volume) : Prop
    extends Clear lay deps cwd v where
  based : Source.Based deps cwd (deps.place cwd) v
  root : v.lookup (lay.root.place cwd) = some .dir

theorem Clear.unlinked (h : lay.Clear deps cwd v) (way : OnWay (lay.ways deps cwd) l) :
    Linkless l v := by
  obtain ⟨d, hd, below⟩ := way
  exact (h.linkless d hd).above below

namespace Sited

variable (sited : lay.Sited deps cwd)
include sited

theorem outside (way : OnWay (lay.ways deps cwd) l) : ¬ Inside l (deps.place cwd) := by
  intro inside
  obtain ⟨d, hd, below⟩ := way
  rcases List.mem_cons.1 hd with rfl | hd
  · exact inside.not_above below
  · exact (sited.apart d hd).2 (below.trans inside.1)

/-- What stands where files are installed is outside and beside the ways. -/
theorem beyond (hd : d ∈ lay.places cwd) (n : Bytes) :
    ¬ Inside (n :: d) (deps.place cwd) ∧ ¬ OnWay (lay.ways deps cwd) (n :: d) := by
  constructor
  · intro inside
    rcases below_cons_iff.1 inside.1 with same | below
    · exact inside.2 same.symm
    · exact (sited.apart d hd).2 below
  · rintro ⟨e, he, below⟩
    have above := below.trans (below_cons n d)
    rcases List.mem_cons.1 he with rfl | he
    · exact (sited.apart d hd).1 above
    · exact not_below_cons n d (sited.beside e he d hd above ▸ below)

theorem root_onWay : OnWay (lay.ways deps cwd) (lay.root.place cwd) :=
  ⟨lay.libDir.place cwd, by simp [ways, places],
    Path.place_join sited.relative.1 _ ▸ below_append _ _⟩

theorem start_onWay (hp : p ∈ [deps, lay.root]) :
    OnWay (lay.ways deps cwd) (startOf cwd p.bytes) := by
  rcases List.mem_cons.1 hp with rfl | hp
  · exact ⟨p.place cwd, by simp [ways], below_append _ _⟩
  · obtain rfl := List.mem_singleton.1 hp
    exact sited.root_onWay.above (below_append _ _)

/-- The directories of the installation are named by paths that lead down from where that of the
root starts. -/
theorem target (hp : p ∈ [lay.libDir, lay.binDir]) : p.place cwd ∈ lay.places cwd ∧ p.Descends ∧
    startOf cwd p.bytes = startOf cwd lay.root.bytes := by
  have root := sited.descends lay.root (by simp)
  have relative : ∀ {q : Path}, q.isAbsolute = false → q.bytes.head? ≠ some Bytes.slash := by
    intro q hq
    simpa [Path.isAbsolute] using hq
  rcases List.mem_cons.1 hp with rfl | hp
  · exact ⟨by simp [places], Path.descends_join sited.relative.1 root (sited.descends _ (by simp)),
      Path.head_join (relative sited.relative.1) _⟩
  · obtain rfl := List.mem_singleton.1 hp
    exact ⟨by simp [places], Path.descends_join sited.relative.2 root (sited.descends _ (by simp)),
      Path.head_join (relative sited.relative.2) _⟩

variable (alters : lay.Alters deps cwd names v u)
include alters

theorem linkless (free : ∀ d ∈ lay.ways deps cwd, Linkless d v) :
    ∀ d ∈ lay.ways deps cwd, Linkless d u := by
  intro d hd l t below
  have way : OnWay (lay.ways deps cwd) l := ⟨d, hd, below⟩
  exact alters.unlinked (sited.outside way) way (free d hd l t below)

/-- On the way to a directory nothing has changed. -/
theorem fixed_above (upright : Upright v) (way : OnWay (lay.ways deps cwd) d)
    (dir : v.lookup d = some .dir) (k : Location) (below : Below d k) :
    u.lookup k = v.lookup k := by
  have there := upright.above dir below
  rw [there, alters.dir (sited.outside (way.above below)) there]

theorem keeps_clear (clear : lay.Clear deps cwd v) (upright : Upright u) : lay.Clear deps cwd u :=
  ⟨upright, fun p hp => alters.dir (sited.outside (sited.start_onWay hp)) (clear.starts p hp),
    sited.linkless alters clear.linkless⟩

theorem keeps_based (clear : lay.Clear deps cwd v)
    (based : Source.Based deps cwd (deps.place cwd) v) (upright : Upright u) :
    Source.Based deps cwd (deps.place cwd) u := by
  have way : OnWay (lay.ways deps cwd) (deps.place cwd) := ⟨_, by simp [ways], below_refl _⟩
  have down := sited.descends deps (by simp)
  have opens : Opens u cwd deps (deps.place cwd) := based.opens.above down (clear.unlinked way)
    (sited.fixed_above alters clear.upright way based.there)
  have linkless := sited.linkless alters clear.linkless (deps.place cwd) (by simp [ways])
  have there := alters.dir (sited.outside way) based.there
  exact ⟨⟨upright, there⟩, opens.fixed down linkless, based.start⟩

theorem keeps_settled (settled : lay.Settled deps cwd v) (upright : Upright u) :
    lay.Settled deps cwd u :=
  ⟨sited.keeps_clear alters settled.toClear upright,
    sited.keeps_based alters settled.toClear settled.based upright,
    alters.dir (sited.outside sited.root_onWay) settled.root⟩

end Sited

/-- What leaves the ways clear leaves all settled. -/
theorem Sited.keeping_settled (sited : lay.Sited deps cwd)
    (h : Keeping (lay.Clear deps cwd) (lay.Alters deps cwd names) v u) :
    Keeping (lay.Settled deps cwd) (lay.Alters deps cwd names) v u := by
  intro settled
  obtain ⟨alters, clear⟩ := h settled.toClear
  exact ⟨alters, sited.keeps_settled alters settled clear.upright⟩

/-- Directories that are made on the ways or in that of the dependencies leave the ways clear. -/
theorem Sited.moves_ensureDir (sited : lay.Sited deps cwd) (names : List String) (down : p.Descends)
    (way : OnWay (lay.ways deps cwd) (p.place cwd).tail)
    (place : Inside (p.place cwd) (deps.place cwd) ∨ OnWay (lay.ways deps cwd) (p.place cwd))
    (start : ∃ q ∈ [deps, lay.root], startOf cwd p.bytes = startOf cwd q.bytes) :
    Moves cwd (Keeping (lay.Clear deps cwd) (lay.Alters deps cwd names))
      (ensureDir p) := by
  refine moves_ensureDir_of (Keeping.refl (Alters.refl _ _ _)) (Keeping.trans Alters.trans)
    fun q hq v u made clear => ?_
  obtain ⟨below, descends⟩ := Path.ancestors_place hq cwd
  obtain ⟨r, hr, same⟩ := start
  have starts : v.lookup (startOf cwd q.bytes) = some .dir := by
    rw [Path.ancestors_start hq, same]
    exact clear.starts r hr
  have upright := (clear.upright.makeDir starts made).1
  obtain ⟨d, n, hL, hn, rfl⟩ := makeDir_ok made
  have named := reachName_place hL (descends down) ((clear.unlinked way).above below.tail)
  have alters : lay.Alters deps cwd names v (v.put (n :: d) .dir) := by
    intro l out
    by_cases here : l = n :: d
    · subst here
      refine .inr (.inl ⟨?_, hn, by rw [lookup_put _ _ _ (by simp), if_pos rfl]⟩)
      rcases place with inside | onWay
      · exact way.above (inside.below_tail (named ▸ below) out)
      · exact onWay.above (named ▸ below)
    · exact .inl (lookup_put_ne v _ here)
  exact ⟨alters, sited.keeps_clear alters clear upright⟩

/-- A directory may be made in that of the dependencies. -/
theorem Sited.moves_ensureDir_div (sited : lay.Sited deps cwd) (names : List String) {n : String}
    (hn : IsName (ofText n)) :
    Moves cwd (Keeping (lay.Clear deps cwd) (lay.Alters deps cwd names))
      (ensureDir (deps / n)) := by
  have place : (deps / n).place cwd = ofText n :: deps.place cwd := Path.place_div hn cwd
  refine sited.moves_ensureDir names (Path.descends_div hn (sited.descends deps (by simp))) ?_ ?_
    ⟨deps, by simp, Path.start_div deps hn cwd⟩
  · rw [place]
    exact ⟨_, by simp [ways], below_refl _⟩
  · rw [place]
    exact .inl (inside_cons _ _)

end Layout

end PinnedDeps
