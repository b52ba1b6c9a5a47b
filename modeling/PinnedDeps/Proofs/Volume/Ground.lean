import PinnedDeps.Proofs.Volume.Rooted

/-!
Changes at the names of a directory that lies inside another one. Where everything stands in
directories, such a change keeps inside, and the path to the directory leads inside afterwards.
-/
namespace PinnedDeps

open Bytes (dot)

namespace Volume

variable {v u : Volume} {cwd top d k l : Location} {n : Bytes} {p q : Path}

theorem openNew_ok {mode : Nat} (h : v.openNew cwd p mode = .ok (l, u)) :
    ∃ d n, l = n :: d ∧ reachName v cwd p = .ok (.name d n) ∧ v.lookup l = none ∧
      u = v.put l (.file ⟨[], mode, none⟩) := by
  unfold openNew at h
  obtain ⟨L, hL, h⟩ := bind_ok.1 h
  cases L with
  | place l => cases h
  | name d n =>
    simp only at h
    split at h
    · cases h
    split at h
    · cases h
    · rename_i hn
      cases h
      exact ⟨d, n, rfl, hL, by simpa using hn, rfl⟩

theorem hardLink_ok (h : v.hardLink cwd p q = .ok u) : ∃ src e d n,
    v.entryAt cwd p = .ok (src, e) ∧ reachName v cwd q = .ok (.name d n) ∧
      v.lookup (n :: d) = none ∧ e ≠ .dir ∧ u = v.addName src (n :: d) := by
  unfold hardLink at h
  obtain ⟨⟨src, e⟩, hs, h⟩ := bind_ok.1 h
  obtain ⟨L, hL, h⟩ := bind_ok.1 h
  cases L with
  | place l => cases h
  | name d n =>
    simp only at h
    split at h
    · cases h
    rename_i hn
    split at h
    · cases h
    split at h
    · cases h
    · rename_i hd
      cases h
      exact ⟨src, e, d, n, hs, hL, by simpa using hn, hd, rfl⟩

/-- A further name of a file changes what is said of the file under its first name, and no other
entry. -/
theorem lookup_addName_file {src : Location} {f : File} (h : v.lookup src = some (.file f))
    (n : Bytes) (d : Location) : ∃ g, ∀ j, (v.addName src (n :: d)).lookup j =
      if j = n :: d ∨ j = src then some (.file g) else v.lookup j := by
  have hsrc : src ≠ [] := by
    rintro rfl
    cases h
  unfold addName
  rw [h]
  refine ⟨{ f with peers := some (f.peers.getD v.freshPeers) }, fun j => ?_⟩
  rw [lookup_put_if _ (List.cons_ne_nil n d), lookup_put_if _ hsrc]
  by_cases hj : j = n :: d
  · simp [hj]
  · simp [hj]

theorem addName_link {src : Location} {t : Bytes} (h : v.lookup src = some (.link t))
    (l : Location) : v.addName src l = v.put l (.link t) := by
  unfold addName
  rw [h]

/-- What one step of unpacking does to the entry of a name in a directory. -/
inductive Worked (top : Location) (v : Volume) (d : Location) (n : Bytes) : Volume → Prop
  | put (e : Entry) : v.lookup (n :: d) = none → Worked top v d n (v.put (n :: d) e)
  | erased {x : Entry} : v.lookup (n :: d) = some x → x ≠ .dir → Worked top v d n (v.erase (n :: d))
  | shared {src : Location} {f : File} : v.lookup src = some (.file f) → Below src top →
      v.lookup (n :: d) = none → Worked top v d n (v.addName src (n :: d))

/-- No directory is lost. -/
def Dirs (v u : Volume) : Prop := ∀ l, v.lookup l = some .dir → u.lookup l = some .dir

theorem Worked.within (h : Worked top v d n u) (hd : Below d top) (htop : v.lookup top = some .dir) :
    Within top v u := by
  have inside : Inside (n :: d) top := by
    refine ⟨(below_cons n d).trans hd, ?_⟩
    rintro rfl
    exact not_below_cons n d hd
  intro l hl
  have other : l ≠ n :: d := by
    rintro rfl
    exact hl inside
  cases h with
  | put e _ => exact lookup_put_ne v e other
  | erased _ _ => exact lookup_erase_ne v other
  | @shared src f hf hb hn =>
    obtain ⟨g, hg⟩ := lookup_addName_file hf n d
    have apart : l ≠ src := by
      rintro rfl
      refine hl ⟨hb, ?_⟩
      rintro rfl
      rw [hf] at htop
      cases htop
    rw [hg, if_neg (by simp [other, apart])]

theorem Worked.dirs (h : Worked top v d n u) : Dirs v u := by
  intro l hl
  cases h with
  | put e hn => exact lookup_put_new e hn hl
  | erased hx hd =>
    rw [lookup_erase_ne, hl]
    rintro rfl
    rw [hx] at hl
    exact hd (Option.some.inj hl)
  | @shared src f hf hb hn =>
    obtain ⟨g, hg⟩ := lookup_addName_file hf n d
    rw [hg, if_neg, hl]
    rintro (rfl | rfl)
    · rw [hn] at hl
      cases hl
    · rw [hf] at hl
      cases hl

/-- A volume stays upright if no directory is lost and whatever is new stands in a directory. -/
theorem Upright.step (h : Upright v) (dirs : Dirs v u)
    (new : ∀ l, (u.lookup l).isSome → (v.lookup l).isSome ∨ v.lookup l.tail = some .dir) :
    Upright u := by
  intro m e hm
  rcases new (m :: e) hm with g | g
  · exact dirs e (h m e g)
  · exact dirs e g

theorem Upright.worked (h : Upright v) (g : Worked top v d n u) (hd : v.lookup d = some .dir) :
    Upright u := by
  refine h.step g.dirs fun l hl => ?_
  by_cases here : l = n :: d
  · exact .inr (here ▸ hd)
  refine .inl ?_
  cases g with
  | put e _ => rwa [lookup_put_ne v e here] at hl
  | erased _ _ => rwa [lookup_erase_ne v here] at hl
  | @shared src f hf hb hn =>
    obtain ⟨g, hg⟩ := lookup_addName_file hf n d
    rw [hg] at hl
    by_cases hs : l = src
    · rw [hs, hf]
      rfl
    · rwa [if_neg (by simp [here, hs])] at hl

theorem dirs_adjust (v : Volume) (l : Location) (change : File → File) :
    Dirs v (v.adjust l change) := by
  intro j hj
  rcases lookup_adjust_alike v l j change with h | ⟨f, g, _, h⟩
  · rw [h, hj]
  · rw [hj] at h
    cases h

theorem Upright.adjust (h : Upright v) (l : Location) (change : File → File) :
    Upright (v.adjust l change) := by
  refine h.step (dirs_adjust v l change) fun j hj => .inl ?_
  rcases lookup_adjust_alike v l j change with g | ⟨f, g, _, e⟩
  · rwa [g] at hj
  · rw [e]
    rfl

/-- The destination is there, and everything stands in directories. -/
structure Ground (top : Location) (v : Volume) : Prop where
  upright : Upright v
  there : v.lookup top = some .dir

theorem Ground.dirs (h : Ground top v) (upright : Upright u) (g : Dirs v u) : Ground top u :=
  ⟨upright, g _ h.there⟩

/-- Where the path of a location leads to, there is a directory. -/
theorem Upright.opens_path (h : Upright v) (g : Opens v cwd (Location.path k) d) :
    v.lookup d = some .dir := by
  obtain ⟨n, _, g⟩ := g
  rw [startOf_path] at g
  exact h.leads g rfl

/-- A volume with ground becomes another one that differs only inside the destination. -/
def Builds (top : Location) (v u : Volume) : Prop :=
  Ground top v → Within top v u ∧ Ground top u

theorem Builds.refl (top : Location) (v : Volume) : Builds top v v :=
  fun h => ⟨.refl top v, h⟩

theorem Builds.trans (u v w : Volume) (h : Builds top u v) (g : Builds top v w) :
    Builds top u w := by
  intro ground
  obtain ⟨within, ground⟩ := h ground
  obtain ⟨within', ground⟩ := g ground
  exact ⟨within.trans _ _ _ within', ground⟩

/-- Where the path of a location leads to, lies inside the destination. -/
def Aimed (cwd top k : Location) (v : Volume) : Prop :=
  ∀ e, Opens v cwd (Location.path k) e → Below e top

/-- The same, as long as one directory is where the entries are put. -/
def Held (cwd top k : Location) (v u : Volume) : Prop :=
  Ground top v → Aimed cwd top k v → Within top v u ∧ Ground top u ∧ Aimed cwd top k u

theorem Held.refl (cwd top k : Location) (v : Volume) : Held cwd top k v v :=
  fun h g => ⟨.refl top v, h, g⟩

theorem Held.trans (u v w : Volume) (h : Held cwd top k u v) (g : Held cwd top k v w) :
    Held cwd top k u w := by
  intro ground aimed
  obtain ⟨within, ground, aimed⟩ := h ground aimed
  obtain ⟨within', ground, aimed⟩ := g ground aimed
  exact ⟨within.trans _ _ _ within', ground, aimed⟩

/-- The path of a location is followed to its last name from where the rest leads. -/
theorem reachName_path {L : Landing} (proper : Proper (n :: k))
    (h : reachName v cwd (Location.path (n :: k)) = .ok L) :
    ∃ e, Opens v cwd (Location.path k) e ∧ L = .name e n := by
  have hn : IsName n := proper n (by simp)
  obtain ⟨_, h⟩ := reachName_ok.1 h
  rw [startOf_path, proper.segments_path, List.reverse_cons] at h
  obtain ⟨m, e, hm, g, h⟩ := h.leads (by simp)
  refine ⟨e, ⟨m, hm, ?_⟩, ((passage_last hn.notDot hn.notUp).1 h).2⟩
  rw [startOf_path, (show Proper k from proper.tail).segments_path]
  exact g

theorem Worked.held (h : Worked top v d n u) (opens : Opens v cwd (Location.path k) d) :
    Held cwd top k v u := by
  intro ground aimed
  have hb := aimed d opens
  have hd := ground.upright.opens_path opens
  refine ⟨h.within hb ground.there, ground.dirs (ground.upright.worked h hd) h.dirs, fun e he => ?_⟩
  cases h with
  | put x hn => exact he.unique (opens.keep (keeps_put x hn)) ▸ hb
  | erased _ _ => exact aimed e (he.keep (thins_erase v _).poorer.keeps)
  | @shared src f hf hs hn =>
    obtain ⟨g, hg⟩ := lookup_addName_file hf n d
    have kept : Keeps v (v.addName src (n :: d)) := by
      intro l y hy notFile
      rw [hg, if_neg, hy]
      rintro (rfl | rfl)
      · rw [hn] at hy
        cases hy
      · rw [hf] at hy
        exact notFile f (Option.some.inj hy).symm
    exact he.unique (opens.keep kept) ▸ hb

/-- A file that shares its bytes with no other can be changed. -/
theorem held_adjust {f : File} (change : File → File) (opens : Opens v cwd (Location.path k) d)
    (hl : v.lookup (n :: d) = some (.file f)) (hp : f.peers = none) :
    Held cwd top k v (v.adjust (n :: d) change) := by
  intro ground aimed
  have hb := aimed d opens
  refine ⟨fun j hj => ?_, ground.dirs (ground.upright.adjust _ change) (dirs_adjust v _ change),
    fun e he => aimed e (he.keep (keeps_of_adjust _ change))⟩
  rw [lookup_adjust_alone change hl hp, if_neg]
  rintro rfl
  refine hj ⟨(below_cons n d).trans hb, ?_⟩
  rintro rfl
  exact not_below_cons n d hb

/-- Through the path of a directory in the volume its own entries are seen. -/
theorem Ground.stat_path {x : Entry} (h : Ground top v) (usable : Usable top)
    (hs : v.stat cwd (Location.path top) = .ok (l, x)) : l = top :=
  (opens_path usable fun _ hk => h.upright.above h.there hk).stat_eq hs

/-- Something is seen through the path of a location, and it lies inside the destination. -/
def Seen (cwd top k : Location) (v : Volume) : Prop :=
  ∃ l x, v.stat cwd (Location.path k) = .ok (l, x) ∧ Below l top

theorem Seen.aimed (h : Seen cwd top k v) : Aimed cwd top k v := by
  obtain ⟨l, x, hs, hb⟩ := h
  exact fun e he => he.stat_eq hs ▸ hb

/-- What is seen stays in sight when something is put where nothing was. -/
theorem Seen.put (h : Seen cwd top k v) (x : Entry) (hn : v.lookup (n :: d) = none) :
    Seen cwd top k (v.put (n :: d) x) := by
  have kept : ∀ j y, v.lookup j = some y → (v.put (n :: d) x).lookup j = some y :=
    fun j y hy => lookup_put_new x hn hy
  obtain ⟨l, y, hs, hb⟩ := h
  obtain ⟨L, hL, rfl, hy⟩ := stat_ok.1 hs
  obtain ⟨usable, walked⟩ := reach_ok.1 hL
  have poorer : Poorer v (v.put (n :: d) x) := fun j z hz => .inl (kept j z hz)
  exact ⟨_, y, stat_ok.2 ⟨L, reach_ok.2 ⟨usable, walked.of_poorer poorer (by rw [hy]; rfl)⟩, rfl,
    kept _ _ hy⟩, hb⟩

/-- Above a location that is seen nothing can be made. -/
theorem Seen.not_makeDir {i : Location} (h : Seen cwd top k v) (proper : Proper k) (hb : Below k i) :
    v.makeDir cwd (Location.path i) ≠ .ok u := by
  intro hu
  obtain ⟨d, m, hL, hn, -⟩ := makeDir_ok hu
  obtain ⟨-, made⟩ := reachName_ok.1 hL
  rw [startOf_path, (proper.below hb).segments_path] at made
  obtain ⟨l, x, hs, -⟩ := h
  obtain ⟨L, hL, rfl, hx⟩ := stat_ok.1 hs
  obtain ⟨-, seen⟩ := reach_ok.1 hL
  rw [startOf_path] at seen
  obtain ⟨r, rfl⟩ := below_iff.1 hb
  cases i with
  | nil => cases made
  | cons s i =>
    have ends : (Location.path (r ++ s :: i)).endsInSlash = false := by
      cases r with
      | nil => exact proper.endsInSlash_path
      | cons z r => exact proper.endsInSlash_path
    rw [Path.strides_eq ends, proper.segments_path, List.reverse_append] at seen
    by_cases hr : r = []
    · subst hr
      rw [List.reverse_nil, List.append_nil] at seen
      -- The same walk ends at a name that is there and at one that is missing.
      have same := seen.unique (made.followed fun t ht => by
        rw [show Landing.location (.name d m) = m :: d from rfl, hn] at ht
        cases ht)
      cases same
      rw [show Landing.location (.name d m) = m :: d from rfl, hn] at hx
      cases hx
    · obtain ⟨N, e, hN, leads, -⟩ := seen.leads (by simpa using hr)
      obtain ⟨L', named, there⟩ := leads.named hN
      cases named.unique made
      have := there d m rfl
      rw [hn] at this
      cases this

/-- The step of making a directory at a location, as long as the directory above it is seen. -/
def Founded (cwd top k : Location) (v u : Volume) : Prop :=
  Ground top v → Seen cwd top k v → Within top v u ∧ Ground top u ∧ Seen cwd top k u

theorem Founded.refl (cwd top k : Location) (v : Volume) : Founded cwd top k v v :=
  fun h g => ⟨.refl top v, h, g⟩

theorem Founded.trans (u v w : Volume) (h : Founded cwd top k u v) (g : Founded cwd top k v w) :
    Founded cwd top k u w := by
  intro ground seen
  obtain ⟨within, ground, seen⟩ := h ground seen
  obtain ⟨within', ground, seen⟩ := g ground seen
  exact ⟨within.trans _ _ _ within', ground, seen⟩

theorem Founded.makeDir {i : Location} (proper : Proper (n :: k)) (hb : Below (n :: k) i)
    (h : v.makeDir cwd (Location.path i) = .ok u) : Founded cwd top k v u := by
  intro ground seen
  rcases below_cons_iff.1 hb with rfl | above
  · obtain ⟨d, m, hL, hn, rfl⟩ := makeDir_ok h
    obtain ⟨e, opens, hLe⟩ := reachName_path proper hL
    cases hLe
    obtain ⟨within, ground, -⟩ := (Worked.put .dir hn).held opens ground seen.aimed
    exact ⟨within, ground, seen.put .dir hn⟩
  · exact absurd h (seen.not_makeDir proper.tail above)

end Volume

end PinnedDeps
