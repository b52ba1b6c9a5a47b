import PinnedDeps.Volume.Operation

/-!
What the changes of a volume mean for a lookup. Adjusting a file changes files only; moving a tree
carries every lookup below it to the new place and leaves all others alone.
-/
namespace PinnedDeps.Volume

theorem below_refl (l : Location) : Below l l := List.suffix_refl l

theorem Below.trans {a b c : Location} (h : Below a b) (g : Below b c) : Below a c :=
  List.IsSuffix.trans g h

theorem below_cons (n : Bytes) (l : Location) : Below (n :: l) l := List.suffix_cons n l

theorem below_append (r l : Location) : Below (r ++ l) l := List.suffix_append r l

theorem below_root (l : Location) : Below l [] := List.nil_suffix

theorem Below.length_le {a b : Location} (h : Below a b) : b.length ≤ a.length :=
  List.IsSuffix.length_le h

theorem below_iff {l top : Location} : Below l top ↔ ∃ r, l = r ++ top :=
  ⟨fun ⟨r, h⟩ => ⟨r, h.symm⟩, fun ⟨r, h⟩ => ⟨r, h.symm⟩⟩

theorem below_cons_iff {n : Bytes} {d top : Location} :
    Below (n :: d) top ↔ top = n :: d ∨ Below d top := List.suffix_cons_iff

theorem Below.antisymm {a b : Location} (h : Below a b) (g : Below b a) : a = b :=
  (h.eq_of_length (Nat.le_antisymm h.length_le g.length_le)).symm

/-- Of two places above one location, one is above the other. -/
theorem Below.total {l a b : Location} (h : Below l a) (g : Below l b) : Below a b ∨ Below b a :=
  (List.suffix_or_suffix_of_suffix h g).symm

theorem not_below_cons (n : Bytes) (l : Location) : ¬ Below l (n :: l) := by
  intro h
  have := h.length_le
  simp only [List.length_cons] at this
  omega

/-- Two different names in one directory have nothing below them in common. -/
theorem not_below_of_ne {a b : Bytes} {d l : Location} (h : a ≠ b) (g : Below l (a :: d)) :
    ¬ Below l (b :: d) := by
  intro g'
  obtain ⟨r, rfl⟩ := below_iff.1 g
  obtain ⟨r', e⟩ := below_iff.1 g'
  have hl : r.length = r'.length := by simpa using congrArg List.length e
  have := (List.append_inj e hl).2
  exact h (by simpa using this)

/-- Below a directory, but not the directory itself. -/
def Inside (l top : Location) : Prop := Below l top ∧ l ≠ top

instance (l top : Location) : Decidable (Inside l top) := inferInstanceAs (Decidable (_ ∧ _))

theorem inside_cons (n : Bytes) (l : Location) : Inside (n :: l) l := by
  refine ⟨below_cons n l, fun h => ?_⟩
  exact not_below_cons n l (by rw [h]; exact below_refl _)

theorem Below.inside {l d : Location} {n : Bytes} (h : Below l (n :: d)) : Inside l d := by
  refine ⟨h.trans (below_cons n d), ?_⟩
  rintro rfl
  exact not_below_cons n l h

theorem Inside.cons {l top : Location} {n : Bytes} (h : Inside l top) : Inside (n :: l) top :=
  ⟨(below_cons n l).trans h.1, fun e => not_below_cons n l (e ▸ h.1)⟩

theorem Inside.not_above {l top : Location} (h : Inside l top) : ¬ Below top l :=
  fun g => h.2 (h.1.antisymm g)

/-- Nothing stands at a location or below it. -/
def Gone (v : Volume) (l : Location) : Prop := ∀ j, Below j l → v.lookup j = none

/-- At a location stands nothing, or a directory with whatever is in it. -/
def TreeAt (v : Volume) (l : Location) : Prop := Gone v l ∨ v.lookup l = some .dir

/-- The second volume differs from the first one only inside a directory. -/
def Within (top : Location) (v w : Volume) : Prop :=
  ∀ l, ¬ Inside l top → w.lookup l = v.lookup l

theorem Within.refl (top : Location) (v : Volume) : Within top v v := fun _ _ => rfl

theorem Within.trans {top : Location} (u v w : Volume) (h : Within top u v) (g : Within top v w) :
    Within top u w := fun l hl => (g l hl).trans (h l hl)

theorem within_erase (v : Volume) (m : Bytes) (d : Location) : Within d v (v.erase (m :: d)) := by
  refine fun l hl => lookup_erase_ne v ?_
  rintro rfl
  exact hl (inside_cons m d)

/-- The second volume differs from the first one only at some places. -/
def Only (P : Location → Prop) (v w : Volume) : Prop := ∀ l, ¬ P l → w.lookup l = v.lookup l

section Only

variable {P Q : Location → Prop} {u v w : Volume} {top : Location}

theorem Only.refl (P : Location → Prop) (v : Volume) : Only P v v := fun _ _ => rfl

theorem Only.trans (u v w : Volume) (h : Only P u v) (g : Only P v w) : Only P u w :=
  fun l hl => (g l hl).trans (h l hl)

theorem Only.mono (h : Only P v w) (g : ∀ l, P l → Q l) : Only Q v w :=
  fun l hl => h l fun hp => hl (g l hp)

theorem Only.within (h : Only P v w) (g : ∀ l, P l → Inside l top) : Within top v w := h.mono g

end Only

theorem Gone.congr {v w : Volume} {l : Location} (h : Gone v l)
    (g : ∀ j, Below j l → w.lookup j = v.lookup j) : Gone w l :=
  fun j hj => (g j hj).trans (h j hj)

theorem TreeAt.congr {v w : Volume} {l : Location} (h : TreeAt v l)
    (g : ∀ j, Below j l → w.lookup j = v.lookup j) : TreeAt w l :=
  h.imp (fun h => h.congr g) fun h => (g l (below_refl l)).trans h

theorem TreeAt.not_link {v : Volume} {l : Location} (h : TreeAt v l) (t : Bytes) :
    v.lookup l ≠ some (.link t) := by
  rcases h with h | h
  · rw [h l (below_refl l)]
    simp
  · rw [h]
    simp

theorem lookup_eq (v : Volume) {l : Location} (h : l ≠ []) : v.lookup l = v.entries.lookup l := by
  cases l with
  | nil => exact absurd rfl h
  | cons n d => rfl

theorem isSome_lookup_of_mem {v : Volume} {l : Location} {e : Entry} (h : (l, e) ∈ v.entries) :
    (v.lookup l).isSome := by
  cases l with
  | nil => rfl
  | cons n d =>
    show (v.entries.lookup (n :: d)).isSome
    exact List.lookup_isSome_iff.2 ⟨_, h, BEq.rfl⟩

theorem names_of_empty {v : Volume} {d : Location} (h : ∀ n, v.lookup (n :: d) = none) :
    v.names d = [] := by
  refine List.filterMap_eq_nil_iff.2 fun a ha => ?_
  obtain ⟨l, e⟩ := a
  cases l with
  | nil => rfl
  | cons n parent =>
    refine if_neg fun hp => ?_
    have := isSome_lookup_of_mem ha
    rw [hp, h n] at this
    cases this

theorem empty_of_names {v : Volume} {d : Location} (h : v.names d = []) (n : Bytes) :
    v.lookup (n :: d) = none := by
  cases hx : v.lookup (n :: d) with
  | none => rfl
  | some x =>
    obtain ⟨a, b, hab, _⟩ := List.lookup_eq_some_iff.1 (show v.entries.lookup (n :: d) = some x from hx)
    have := List.filterMap_eq_nil_iff.1 h (n :: d, x) (by rw [hab]; simp)
    simp at this

theorem lookup_put_if (v : Volume) {l : Location} (hl : l ≠ []) (e : Entry) (j : Location) :
    (v.put l e).lookup j = if j = l then some e else v.lookup j := by
  cases j with
  | nil => rw [if_neg hl.symm, lookup_root, lookup_root]
  | cons n d => exact lookup_put v l e (by simp)

/-- What is put where nothing was replaces nothing. -/
theorem lookup_put_new {v : Volume} {l j : Location} {y : Entry} (x : Entry) (hn : v.lookup l = none)
    (hy : v.lookup j = some y) : (v.put l x).lookup j = some y := by
  rw [lookup_put_ne, hy]
  rintro rfl
  rw [hn] at hy
  cases hy

/-- A volume without the entries at some locations. -/
def without (v : Volume) (ls : List Location) : Volume :=
  ⟨v.entries.filter fun e => e.1 ∉ ls⟩

theorem lookup_without (v : Volume) (ls : List Location) {j : Location} (h : j ≠ []) :
    (v.without ls).lookup j = if j ∈ ls then none else v.lookup j := by
  rw [lookup_eq _ h, lookup_eq _ h]
  show (v.entries.filter fun e => decide (e.1 ∉ ls)).lookup j = _
  rw [Pairs.lookup_filter_key (fun l => decide (l ∉ ls))]
  by_cases hj : j ∈ ls <;> simp [hj]

/-- Two entries look alike if they are the same, or both are files. -/
def Alike (a b : Option Entry) : Prop := a = b ∨ ∃ f g, a = some (.file f) ∧ b = some (.file g)

theorem Alike.refl (a : Option Entry) : Alike a a := .inl rfl

/-- A change of one file as a map on the entries. -/
def adjusted (l : Location) (f : File) (change : File → File) (k : Location) (e : Entry) : Entry :=
  if k = l ∨ samePeers f e then .file (change f) else e

theorem adjust_entries {v : Volume} {l : Location} {f : File} (change : File → File)
    (h : v.lookup l = some (.file f)) :
    (v.adjust l change).entries = v.entries.map fun e => (e.1, adjusted l f change e.1 e.2) := by
  unfold adjust
  rw [h]
  apply List.map_congr_left
  intro e _
  unfold adjusted
  split <;> rfl

theorem lookup_adjust {v : Volume} {l : Location} {f : File} (change : File → File)
    (h : v.lookup l = some (.file f)) (n : Bytes) (d : Location) :
    (v.adjust l change).lookup (n :: d) =
      (v.lookup (n :: d)).map (adjusted l f change (n :: d)) := by
  rw [lookup_eq _ (by simp), lookup_eq _ (by simp), adjust_entries change h, Pairs.lookup_map_value]

theorem adjust_of_not_file {v : Volume} {l : Location} (change : File → File)
    (h : ∀ f, v.lookup l ≠ some (.file f)) : v.adjust l change = v := by
  unfold adjust
  split
  · rename_i f hf
    exact absurd hf (h f)
  · rfl

/-- A file stays a file, and whatever is no file stays what it is. -/
theorem lookup_adjust_alike (v : Volume) (l j : Location) (change : File → File) :
    Alike ((v.adjust l change).lookup j) (v.lookup j) := by
  by_cases h : ∃ f, v.lookup l = some (.file f)
  · obtain ⟨f, hf⟩ := h
    cases j with
    | nil => exact .refl _
    | cons n d =>
      rw [lookup_adjust change hf]
      cases hj : v.lookup (n :: d) with
      | none => exact .refl _
      | some e =>
        rw [Option.map_some]
        unfold adjusted
        split
        · rename_i hc
          rcases hc with rfl | hs
          · exact .inr ⟨change f, f, rfl, by rw [← hf, hj]⟩
          · cases e with
            | file g => exact .inr ⟨change f, g, rfl, rfl⟩
            | dir => simp [samePeers] at hs
            | link t => simp [samePeers] at hs
        · exact .refl _
  · rw [adjust_of_not_file change fun f hf => h ⟨f, hf⟩]
    exact .refl _

theorem lookup_adjust_self {v : Volume} {l : Location} {f : File} (change : File → File)
    (h : v.lookup l = some (.file f)) : (v.adjust l change).lookup l = some (.file (change f)) := by
  cases l with
  | nil => cases h
  | cons n d =>
    rw [lookup_adjust change h, h]
    simp [adjusted]

/-- A file that shares its bytes with no other is changed alone. -/
theorem lookup_adjust_alone {v : Volume} {l j : Location} {f : File} (change : File → File)
    (h : v.lookup l = some (.file f)) (hp : f.peers = none) :
    (v.adjust l change).lookup j = if j = l then some (.file (change f)) else v.lookup j := by
  cases j with
  | nil =>
    split
    · rename_i e
      rw [← e] at h
      cases h
    · rfl
  | cons n d =>
    have hs : ∀ e, samePeers f e = false := by
      intro e
      cases e <;> simp [samePeers, hp]
    rw [lookup_adjust change h]
    split
    · rename_i e
      rw [e, h]
      simp [adjusted]
    · rename_i e
      have : adjusted l f change (n :: d) = id := by
        funext x
        simp [adjusted, e, hs]
      rw [this]
      simp

/-- A file that has just been put somewhere can be changed without a change to anything else. -/
theorem lookup_adjust_new {v u : Volume} {l : Location} {f : File} (change : File → File)
    (h : ∀ j, u.lookup j = if j = l then some (.file f) else v.lookup j) (hp : f.peers = none)
    (j : Location) : (u.adjust l change).lookup j =
      if j = l then some (.file (change f)) else v.lookup j := by
  rw [lookup_adjust_alone change ((h l).trans (if_pos rfl)) hp, h j]
  split <;> rfl

theorem carry_of_not_below {src dst l : Location} (h : ¬ Below l src) : carry src dst l = l := by
  simp [carry, h]

theorem carry_append (src dst r : Location) : carry src dst (r ++ src) = r ++ dst := by
  simp [carry, below_append]

theorem below_carry {src dst l : Location} (h : Below l src) : Below (carry src dst l) dst := by
  obtain ⟨r, rfl⟩ := below_iff.1 h
  rw [carry_append]
  exact below_append r dst

section Relocate

variable {v : Volume} {src dst : Location}

theorem relocate_lookup {i j : Location} (hi : i ≠ []) (hj : j ≠ []) (hn : i ≠ dst)
    (h : ∀ e ∈ v.entries, e.1 ≠ dst → (carry src dst e.1 = j ↔ e.1 = i)) :
    (v.relocate src dst).lookup j = v.lookup i := by
  rw [lookup_eq _ hj]
  have key : ((v.erase dst).entries.map fun e => (carry src dst e.1, e.2)).lookup j =
      (v.erase dst).entries.lookup i := by
    apply Pairs.lookup_map_key
    intro e he
    have := List.mem_filter.1 he
    exact h e this.1 (by simpa using this.2)
  refine key.trans ?_
  rw [← lookup_eq _ hi]
  exact lookup_erase_ne v hn

/-- What stands below the source stands below the destination afterwards. -/
theorem lookup_relocate_below (hd : dst ≠ []) (hs : src ≠ []) (hsd : ¬ Below dst src)
    (empty : ∀ l, Inside l dst → v.lookup l = none) (r : Location) :
    (v.relocate src dst).lookup (r ++ dst) = v.lookup (r ++ src) := by
  refine relocate_lookup (by simp [hs]) (by simp [hd]) ?_ ?_
  · intro e
    exact hsd (e ▸ below_append r src)
  · intro e he hne
    constructor
    · intro hc
      by_cases hb : Below e.1 src
      · obtain ⟨x, hx⟩ := below_iff.1 hb
        rw [hx, carry_append] at hc
        rw [hx, List.append_cancel_right hc]
      · rw [carry_of_not_below hb] at hc
        have := empty e.1 ⟨hc ▸ below_append r dst, hne⟩
        have hsome := isSome_lookup_of_mem (v := v) (l := e.1) (e := e.2) he
        rw [this] at hsome
        cases hsome
    · intro hx
      rw [hx, carry_append]

/-- Nothing is left at the source. -/
theorem lookup_relocate_source (hs : src ≠ []) {l : Location} (h : Below l src)
    (hl : ¬ Below l dst) : (v.relocate src dst).lookup l = none := by
  have hne : l ≠ [] := by
    rintro rfl
    have := h.length_le
    exact hs (List.length_eq_zero_iff.1 (by simpa using this))
  rw [lookup_eq _ hne]
  apply Pairs.lookup_map_key_none
  intro e _ hc
  by_cases hb : Below e.1 src
  · exact hl (hc ▸ below_carry hb)
  · rw [carry_of_not_below hb] at hc
    exact hb (hc ▸ h)

/-- Everything that is neither at the source nor at the destination stays. -/
theorem lookup_relocate_of_not_below {l : Location} (hs : ¬ Below l src) (hd : ¬ Below l dst) :
    (v.relocate src dst).lookup l = v.lookup l := by
  cases l with
  | nil => rfl
  | cons n d =>
    have hdst : dst ≠ [] := by
      rintro rfl
      exact hd (below_root _)
    refine relocate_lookup (by simp) (by simp) ?_ ?_
    · rintro rfl
      exact hd (below_refl _)
    · intro e _ _
      constructor
      · intro hc
        by_cases hb : Below e.1 src
        · exact absurd (hc ▸ below_carry hb) hd
        · rwa [carry_of_not_below hb] at hc
      · intro hx
        rw [hx, carry_of_not_below hs]

end Relocate

end PinnedDeps.Volume
