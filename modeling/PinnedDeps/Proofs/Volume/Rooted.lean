import PinnedDeps.Proofs.Ancestors
import PinnedDeps.Proofs.Volume.Upright

/-!
Locations and the paths written from the root. A walk only comes to locations made of names, and a
directory that stands in directories is reached under the path of its location.
-/
namespace PinnedDeps

open Bytes (slash dot)

namespace Volume

variable {v u : Volume} {n : Nat} {cwd d e l k : Location} {s : Bytes} {parts : List Bytes}
  {p q : Path}

/-- What can stand between two slashes of a path. -/
def IsSegment (s : Bytes) : Prop := s ≠ [] ∧ slash ∉ s

/-- All of the location can be written as names in a path. -/
def Proper (l : Location) : Prop := ∀ s ∈ l, IsName s

theorem Proper.tail (h : Proper l) : Proper l.tail := fun s hs => h s (List.mem_of_mem_tail hs)

theorem Proper.below (h : Proper l) (hb : Below l k) : Proper k :=
  fun s hs => h s (List.IsSuffix.subset hb hs)

theorem isSegment_of_mem {p : Path} (h : s ∈ p.segments) : IsSegment s := by
  unfold Path.segments at h
  simp only [List.mem_filter, decide_eq_true_eq] at h
  exact ⟨h.2, Path.not_mem_of_mem_splitOn h.1⟩

theorem isSegment_of_mem_strides {b : Bytes} (h : s ∈ strides b) : IsSegment s := by
  rcases List.mem_append.1 h with h | h
  · exact isSegment_of_mem (p := ⟨b⟩) h
  · split at h
    · rw [List.mem_singleton.1 h]
      exact ⟨by decide, by decide⟩
    · cases h

theorem IsStep.isName (h : IsStep s) (g : IsSegment s) : IsName s := ⟨g.1, g.2, h.notDot, h.notUp⟩

/-- The location can be reached under its names. -/
def Usable (l : Location) : Prop := ∀ s ∈ l, IsName s ∧ s.length ≤ nameLimit

theorem Usable.proper (h : Usable l) : Proper l := fun s hs => (h s hs).1

theorem Usable.startOf (h : Usable d) (b : Bytes) : Usable (startOf d b) := by
  unfold Volume.startOf
  split
  · intro s hs
    cases hs
  · exact h

/-- A walk along segments comes to names that can be looked up. -/
theorem Leads.usable (h : Leads v n d parts e) (hd : Usable d) (hp : ∀ s ∈ parts, IsSegment s) :
    Usable e := by
  induction h with
  | done => exact hd
  | stay _ ih => exact ih hd fun s hs => hp s (by simp [hs])
  | up _ ih =>
    exact ih (fun s hs => hd s (List.mem_of_mem_tail hs)) fun s hs => hp s (by simp [hs])
  | enter hs hl _ ih =>
    refine ih (fun x hx => ?_) fun s hs => hp s (by simp [hs])
    rcases List.mem_cons.1 hx with rfl | hx
    · exact ⟨hs.isName (hp _ (by simp)), hs.short⟩
    · exact hd x hx
  | @follow n d s t rest e hs hl _ ih =>
    refine ih (hd.startOf t) fun x hx => ?_
    rcases List.mem_append.1 hx with hx | hx
    · exact isSegment_of_mem_strides hx
    · exact hp x (by simp [hx])

theorem Opens.usable (h : Opens v cwd p e) (hcwd : Usable cwd) : Usable e := by
  obtain ⟨n, _, h⟩ := h
  exact h.usable (hcwd.startOf _) fun s hs => isSegment_of_mem hs

/-- A walk from a directory comes to directories. -/
theorem Upright.leads (h : Upright v) (g : Leads v n d parts e) (hd : v.lookup d = some .dir) :
    v.lookup e = some .dir := by
  induction g with
  | done => exact hd
  | stay _ ih => exact ih hd
  | @up n d rest e _ ih =>
    refine ih ?_
    cases d with
    | nil => rfl
    | cons s d => exact h s d (by rw [hd]; rfl)
  | enter _ hl _ ih => exact ih hl
  | follow _ _ _ ih => exact ih (lookup_startOf hd _)

theorem Upright.opens_from (h : Upright v) (g : Opens v cwd p e)
    (start : v.lookup (startOf cwd p.bytes) = some .dir) : v.lookup e = some .dir := by
  obtain ⟨n, _, g⟩ := g
  exact h.leads g start

theorem Upright.opens (h : Upright v) (g : Opens v cwd p e) (hcwd : v.lookup cwd = some .dir) :
    v.lookup e = some .dir := h.opens_from g (lookup_startOf hcwd _)

/-- Above a directory there are directories. -/
theorem Upright.above (h : Upright v) (hl : v.lookup l = some .dir) (hb : Below l k) :
    v.lookup k = some .dir := by
  obtain ⟨r, rfl⟩ := below_iff.1 hb
  induction r with
  | nil => exact hl
  | cons s r ih => exact ih (h s (r ++ k) (by rw [← List.cons_append, hl]; rfl)) (below_append r k)

theorem Location.path_cons (s : Bytes) (l : Location) :
    Location.path (s :: l) = (Location.path l).join ⟨s⟩ := by
  unfold Location.path
  rw [List.reverse_cons, List.map_append, Path.extend_append]
  rfl

theorem Location.path_append (r l : Location) :
    Location.path (r ++ l) = (Location.path l).extend (r.reverse.map .name) := by
  unfold Location.path
  rw [List.reverse_append, List.map_append, Path.extend_append]

theorem isAbsolute_path (l : Location) : (Location.path l).isAbsolute = true := by
  induction l with
  | nil => rfl
  | cons s l ih =>
    rw [Location.path_cons]
    exact Path.isAbsolute_join ih

theorem Proper.segments_path (h : Proper l) : (Location.path l).segments = l.reverse := by
  induction l with
  | nil => decide
  | cons s l ih =>
    have hs : IsName s := h s (by simp)
    rw [Location.path_cons, Path.segments_join hs.relative, ih h.tail,
      Path.segments_of_name hs.nonempty hs.noSlash, List.reverse_cons]

theorem Proper.endsInSlash_path (h : Proper (s :: l)) :
    (Location.path (s :: l)).endsInSlash = false := by
  have hs : IsName s := h s (by simp)
  rw [Location.path_cons, Path.endsInSlash_join hs.relative hs.nonempty]
  simpa [Path.endsInSlash] using hs.no_slash_last

theorem startOf_path (l d : Location) : startOf d (Location.path l).bytes = [] := by
  have : (Location.path l).bytes.head? = some slash := by
    simpa [Path.isAbsolute] using isAbsolute_path l
  simp [startOf, this]

theorem Location.ofComponents_root (l : Location) :
    Path.ofComponents (.root :: l.reverse.map .name) = Location.path l := rfl

theorem Proper.components_path (h : Proper l) :
    (Location.path l).components = .root :: l.reverse.map .name := by
  have names : ∀ s ∈ l.reverse, IsName s := fun s hs => h s (List.mem_reverse.1 hs)
  have kept : l.reverse.filter (· ≠ [dot]) = l.reverse :=
    List.filter_eq_self.2 fun s hs => by simpa using (names s hs).notDot
  unfold Path.components
  rw [isAbsolute_path, h.segments_path, kept, if_pos rfl]
  congr 1
  exact List.map_congr_left fun s hs => if_neg (names s hs).notUp

theorem Proper.parent_path (h : Proper (s :: l)) :
    (Location.path (s :: l)).parent? = some (Location.path l) := by
  have last : (Location.path (s :: l)).components = (.root :: l.reverse.map .name) ++ [.name s] := by
    rw [h.components_path]
    simp
  unfold Path.parent?
  rw [last, List.getLast?_append, List.dropLast_concat, Location.ofComponents_root]
  rfl

/-- Above the path of a location stand the paths of the locations above it. -/
theorem Proper.mem_ancestors_path (h : Proper l) (hq : q ∈ (Location.path l).ancestors) :
    ∃ k, Below l k ∧ q = Location.path k := by
  rcases List.mem_cons.1 hq with rfl | hq
  · exact ⟨l, below_refl l, rfl⟩
  obtain ⟨i, hi, rfl⟩ := List.mem_map.1 hq
  rw [h.components_path] at hi ⊢
  have hi : i < l.length := by simpa using hi
  obtain ⟨m, hm⟩ : ∃ m, l.length - i = m + 1 := ⟨l.length - i - 1, by omega⟩
  refine ⟨l.drop (l.length - m), List.drop_suffix _ _, ?_⟩
  have taken : (Component.root :: l.reverse.map .name).take
      ((Component.root :: l.reverse.map .name).length - 1 - i) =
        .root :: (l.drop (l.length - m)).reverse.map .name := by
    rw [List.length_cons, List.length_map, List.length_reverse, Nat.add_sub_cancel, hm,
      List.take_succ_cons, ← List.map_take, List.take_reverse]
  rw [taken, Location.ofComponents_root]

/-- A directory in directories is reached from the root by its names. -/
theorem opens_path (usable : Usable l) (dirs : ∀ k, Below l k → v.lookup k = some .dir) :
    Opens v cwd (Location.path l) l := by
  have names : Leads v 0 [] l.reverse l := by
    induction l with
    | nil => exact .done
    | cons s l ih =>
      obtain ⟨hs, short⟩ := usable s (by simp)
      rw [List.reverse_cons]
      exact (ih (fun x hx => usable x (by simp [hx])) fun k hk => dirs k ((below_cons s l).trans hk)).append
        (.enter ⟨hs.notDot, hs.notUp, short⟩ (dirs _ (below_refl _)) .done)
  refine ⟨0, Nat.zero_le _, ?_⟩
  rw [startOf_path, usable.proper.segments_path]
  exact names

/-- A path that opens a directory is seen as that directory. -/
theorem Opens.stat_eq {x : Entry} (h : Opens v cwd p e) (hs : v.stat cwd p = .ok (l, x)) : l = e := by
  obtain ⟨n, hn, h⟩ := h
  obtain ⟨L, hL, rfl, _⟩ := stat_ok.1 hs
  have walked := (reach_ok.1 hL).2
  have strides : Leads v n (startOf cwd p.bytes) (strides p.bytes) e := by
    cases hp : p.endsInSlash with
    | false => exact Path.strides_eq hp ▸ h
    | true => exact Path.strides_of_slash hp ▸ h.append (.stay .done)
  obtain ⟨L', g, rfl⟩ := strides.ends hn
  cases walked.unique g
  rfl

end Volume
end PinnedDeps
