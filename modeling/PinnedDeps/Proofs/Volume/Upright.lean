import PinnedDeps.Proofs.Volume.Outcome

/-!
Volumes in which every entry stands in a directory. There nothing is below a name that is missing,
and a walk that stops at a name stops in a directory.
-/
namespace PinnedDeps.Volume

variable {v u : Volume} {N : Nat} {cwd d e l : Location} {s : Bytes} {parts : List Bytes} {q : Path}

/-- Every entry stands in a directory. -/
def Upright (v : Volume) : Prop := ∀ n d, (v.lookup (n :: d)).isSome → v.lookup d = some .dir

theorem Upright.gone (h : Upright v) (hl : v.lookup l = none) : Gone v l := by
  intro j hj
  obtain ⟨r, rfl⟩ := below_iff.1 hj
  induction r with
  | nil => exact hl
  | cons n r ih =>
    cases hx : v.lookup (n :: (r ++ l)) with
    | none => exact hx
    | some x =>
      have := h n (r ++ l) (by rw [hx]; rfl)
      rw [ih (below_append r l)] at this
      cases this

theorem Upright.passage {follow : Bool} (h : Upright v)
    (g : Passage v follow N d parts (.ok (.name e s))) (hd : v.lookup d = some .dir) :
    v.lookup e = some .dir := by
  generalize hr : (Except.ok (Landing.name e s) : Except SystemError Landing) = r at g
  induction g with
  | done => cases hr
  | stay _ ih => exact ih hd hr
  | @up N d _ _ _ ih =>
    refine ih ?_ hr
    cases d with
    | nil => rfl
    | cons n d => exact h n d (by rw [hd]; rfl)
  | long => cases hr
  | enter _ hl _ _ ih => exact ih hl hr
  | @follow N d _ t _ _ _ _ _ _ ih =>
    refine ih ?_ hr
    unfold startOf
    split
    · rfl
    · exact hd
  | exhausted => cases hr
  | stop =>
    cases hr
    exact hd
  | blocked => cases hr
  | missing => cases hr

theorem lookup_startOf (h : v.lookup cwd = some .dir) (b : Bytes) :
    v.lookup (startOf cwd b) = some .dir := by
  unfold startOf
  split
  · rfl
  · exact h

theorem Upright.makeDir (h : Upright v) (start : v.lookup (startOf cwd q.bytes) = some .dir)
    (g : v.makeDir cwd q = .ok u) : Upright u ∧ ∀ l, v.lookup l = some .dir → u.lookup l = some .dir := by
  obtain ⟨d, n, hL, hn, rfl⟩ := makeDir_ok g
  have hd : v.lookup d = some .dir := h.passage (reachName_ok.1 hL).2 start
  have kept : ∀ l, v.lookup l = some .dir → (v.put (n :: d) .dir).lookup l = some .dir :=
    fun l hl => lookup_put_new .dir hn hl
  refine ⟨fun m e hm => kept _ ?_, kept⟩
  rw [lookup_put _ _ _ (by simp)] at hm
  split at hm
  · rename_i he
    cases he
    exact hd
  · exact h m e hm

/-- A file can be put into a directory. -/
theorem Upright.file {n : Bytes} {f : File} (h : Upright v) (hd : v.lookup d = some .dir)
    (hn : v.lookup (n :: d) = none)
    (look : ∀ j, u.lookup j = if j = n :: d then some (.file f) else v.lookup j) : Upright u := by
  have kept : ∀ l, v.lookup l = some .dir → u.lookup l = some .dir := by
    intro l hl
    rw [look, if_neg, hl]
    rintro rfl
    rw [hn] at hl
    cases hl
  intro m e hm
  rw [look] at hm
  split at hm
  · rename_i he
    cases he
    exact kept _ hd
  · exact kept _ (h m e hm)

/-- An entry with nothing in it can go. -/
theorem Upright.erase (h : Upright v) (empty : ∀ n, v.lookup (n :: l) = none) :
    Upright (v.erase l) := by
  intro n d hn
  rw [lookup_erase v l (by simp)] at hn
  split at hn
  · cases hn
  · have hd := h n d hn
    rw [lookup_erase_ne, hd]
    rintro rfl
    rw [empty n] at hn
    cases hn

/-- A tree can be moved into a directory that stays, to a place with nothing in it. -/
theorem Upright.relocate {src : Location} {n : Bytes} (h : Upright v) (hs : src ≠ [])
    (parent : v.lookup e = some .dir) (away : ¬ Below (n :: e) src)
    (empty : ∀ l, Inside l (n :: e) → v.lookup l = none) : Upright (v.relocate src (n :: e)) := by
  have moved : ∀ r, (v.relocate src (n :: e)).lookup (r ++ n :: e) = v.lookup (r ++ src) :=
    lookup_relocate_below (by simp) hs away empty
  intro k j hk
  by_cases below : Below (k :: j) (n :: e)
  · rcases below_cons_iff.1 below with same | below
    · -- The top of the tree stands in its new parent.
      cases same
      rw [lookup_relocate_of_not_below (fun b => away ((below_cons n e).trans b)) (not_below_cons n e)]
      exact parent
    · obtain ⟨r, rfl⟩ := below_iff.1 below
      rw [← List.cons_append, moved] at hk
      rw [moved]
      exact h k (r ++ src) hk
  · have not_src : ¬ Below (k :: j) src := by
      intro b
      rw [lookup_relocate_source hs b below] at hk
      cases hk
    rw [lookup_relocate_of_not_below not_src below] at hk
    rw [lookup_relocate_of_not_below (fun b => not_src ((below_cons k j).trans b))
      fun b => below ((below_cons k j).trans b)]
    exact h k j hk

/-- Nothing is in what is no directory. -/
theorem Upright.empty (h : Upright v) (hl : v.lookup l ≠ some .dir) (n : Bytes) :
    v.lookup (n :: l) = none := by
  cases hx : v.lookup (n :: l) with
  | none => rfl
  | some x => exact absurd (h n l (by rw [hx]; rfl)) hl

/-- Nothing is inside an empty directory, or inside what is no directory. -/
theorem Upright.hollow (h : Upright v) (hl : v.lookup l = some .dir → v.names l = []) (j : Location)
    (hj : Inside j l) : v.lookup j = none := by
  have free : ∀ n, v.lookup (n :: l) = none := by
    intro n
    by_cases hd : v.lookup l = some .dir
    · exact empty_of_names (hl hd) n
    · exact h.empty hd n
  obtain ⟨r, rfl⟩ := below_iff.1 hj.1
  rcases List.eq_nil_or_concat r with rfl | ⟨r, n, rfl⟩
  · exact absurd rfl hj.2
  · have gone := h.gone (free n)
    refine gone _ ?_
    simp only [List.concat_eq_append, List.append_assoc]
    exact below_append r (n :: l)

/-- What holds of every entry that is listed holds of the volume. -/
theorem upright_of_entries (h : ∀ a ∈ v.entries, v.lookup a.1.tail = some .dir) : Upright v := by
  intro n d hn
  obtain ⟨x, hx⟩ := Option.isSome_iff_exists.1 hn
  obtain ⟨a, b, hab, _⟩ := List.lookup_eq_some_iff.1 (show v.entries.lookup (n :: d) = some x from hx)
  exact h (n :: d, x) (by rw [hab]; simp)

end PinnedDeps.Volume
