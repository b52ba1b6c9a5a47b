import PinnedDeps.Proofs.Volume.Passage

/-!
Files under several names. The number that the names of a file share has no meaning of its own: two
volumes are the same if their entries are and the same names share a file.
-/
namespace PinnedDeps

/-- An entry without the number that the names of one file share. -/
def Entry.plain : Entry → Entry
  | .file f => .file { f with peers := none }
  | e => e

namespace Volume

variable {v u w : Volume} {l j : Location} {P Q : Location → Prop}

/-- The entries of a tree by their places in it. -/
def tree (v : Volume) (root : Location) (r : Location) : Option Entry :=
  (v.lookup (r ++ root)).map Entry.plain

/-- A write to the file at the first location shows at the second. -/
def Shows (v : Volume) (l j : Location) : Prop :=
  j = l ∨ ∃ f e, v.lookup l = some (.file f) ∧ v.lookup j = some e ∧ samePeers f e = true

/-- What a change of a file does to each location. -/
theorem lookup_adjust_shows {f : File} (change : File → File) (h : v.lookup l = some (.file f))
    (j : Location) : (Shows v l j → (v.adjust l change).lookup j = some (.file (change f))) ∧
      (¬ Shows v l j → (v.adjust l change).lookup j = v.lookup j) := by
  cases j with
  | nil =>
    constructor
    · rintro (rfl | ⟨g, e, _, he, hs⟩)
      · cases h
      · rw [lookup_root] at he
        cases he
        cases hs
    · intro _
      rfl
  | cons n d =>
    rw [lookup_adjust change h]
    constructor
    · rintro (rfl | ⟨g, e, hg, he, hs⟩)
      · rw [h, Option.map_some, adjusted, if_pos (.inl rfl)]
      · rw [h] at hg
        cases hg
        rw [he, Option.map_some, adjusted, if_pos (.inr hs)]
    · intro apart
      cases he : v.lookup (n :: d) with
      | none => rfl
      | some e =>
        rw [Option.map_some, adjusted, if_neg]
        rintro (rfl | hs)
        · exact apart (.inl rfl)
        · exact apart (.inr ⟨f, e, h, he, hs⟩)

theorem samePeers_congr {f g : File} (h : f.peers = g.peers) (e : Entry) :
    samePeers f e = samePeers g e := by
  cases e <;> simp [samePeers, h]

/-- A change of the bytes leaves a file its names. -/
theorem shows_adjust {f : File} {change : File → File} (hc : ∀ f, (change f).peers = f.peers)
    (h : v.lookup l = some (.file f)) (j : Location) :
    Shows (v.adjust l change) l j ↔ Shows v l j := by
  obtain ⟨shown, hidden⟩ := lookup_adjust_shows change h j
  have here := (lookup_adjust_shows change h l).1 (.inl rfl)
  constructor
  · rintro (rfl | ⟨g, e, hg, he, hs⟩)
    · exact .inl rfl
    · refine Classical.byContradiction fun apart => apart (.inr ⟨f, e, h, ?_, ?_⟩)
      · rw [← hidden apart, he]
      · rw [here] at hg
        cases hg
        rwa [samePeers_congr (hc f)] at hs
  · rintro (rfl | ⟨g, e, hg, he, hs⟩)
    · exact .inl rfl
    · rw [h] at hg
      cases hg
      have some_ : f.peers.isSome := by
        cases e with
        | file g =>
          simp only [samePeers, Bool.and_eq_true] at hs
          exact hs.1
        | dir => cases hs
        | link t => cases hs
      refine .inr ⟨change f, .file (change f), here, shown (.inr ⟨f, e, h, he, hs⟩), ?_⟩
      simp [samePeers, hc, some_]

theorem Shows.symm (h : Shows v l j) : Shows v j l := by
  rcases h with rfl | ⟨f, e, hf, he, hs⟩
  · exact .inl rfl
  · cases e with
    | file g =>
      simp only [samePeers, Bool.and_eq_true, beq_iff_eq] at hs
      exact .inr ⟨g, .file f, he, hf, by simp [samePeers, ← hs.2, hs.1]⟩
    | dir => cases hs
    | link t => cases hs

theorem shows_congr (hl : w.lookup l = v.lookup l) (hj : w.lookup j = v.lookup j) :
    Shows w l j ↔ Shows v l j := by
  unfold Shows
  rw [hl, hj]

theorem Shows.of_thins (h : Thins v w) (g : Shows w l j) : Shows v l j :=
  g.imp_right fun ⟨f, e, hf, he, hs⟩ => ⟨f, e, h l _ hf, h j _ he, hs⟩

/-- What stands here is no file, or a file with no other name. -/
def Unshared (v : Volume) (l : Location) : Prop := ∀ f, v.lookup l = some (.file f) → f.peers = none

theorem Unshared.shows_iff (h : Unshared v l) : Shows v l j ↔ j = l := by
  refine ⟨?_, .inl⟩
  rintro (same | ⟨f, e, hf, -, hs⟩)
  · exact same
  · cases e with
    | file g => simp [samePeers, h f hf] at hs
    | dir => cases hs
    | link t => cases hs

theorem unshared_of_none (h : v.lookup l = none) : Unshared v l := by
  intro f hf
  rw [h] at hf
  cases hf

/-- The second volume is as the first one at some places. -/
def AgreeOn (P : Location → Prop) (v w : Volume) : Prop := ∀ l, P l → w.lookup l = v.lookup l

theorem AgreeOn.erase (h : AgreeOn P v w) (l : Location) :
    AgreeOn P (v.erase l) (w.erase l) := by
  intro j hj
  by_cases hne : j = []
  · rw [hne, lookup_root, lookup_root]
  · rw [lookup_erase _ _ hne, lookup_erase _ _ hne]
    split
    · rfl
    · exact h j hj

/-- At some places the second volume has the entries of the first one, and of these the same ones
share a file. -/
structure AlikeOn (P : Location → Prop) (v w : Volume) : Prop where
  plain : ∀ l, P l → (w.lookup l).map Entry.plain = (v.lookup l).map Entry.plain
  shows_ : ∀ l j, P l → P j → (Shows w l j ↔ Shows v l j)

/-- The same entries everywhere, whatever the numbers that the names of a file share. -/
def Same (v w : Volume) : Prop := AlikeOn (fun _ => True) v w

/-- No file has one name at these places and another one elsewhere. -/
def Alone (P : Location → Prop) (v : Volume) : Prop := ∀ l j, P l → ¬ P j → ¬ Shows v l j

/-- At some places both volumes have entries that are alike and have come from nowhere else. -/
structure Remade (P : Location → Prop) (v w : Volume) : Prop extends AlikeOn P v w where
  first : Alone P v
  second : Alone P w

section Remade

variable {v' w' : Volume}

theorem remade_unshared (agree : AgreeOn P v w) (unshared : ∀ l, P l → Unshared v l) :
    Remade P v w := by
  have unshared' : ∀ l, P l → Unshared w l := fun l hl f hf => unshared l hl f ((agree l hl).symm.trans hf)
  refine ⟨⟨fun l hl => by rw [agree l hl], fun l j hl _ => ?_⟩, ?_, ?_⟩
  · rw [(unshared l hl).shows_iff, (unshared' l hl).shows_iff]
  · intro l j hl hj shows_
    exact hj ((unshared l hl).shows_iff.1 shows_ ▸ hl)
  · intro l j hl hj shows_
    exact hj ((unshared' l hl).shows_iff.1 shows_ ▸ hl)

theorem Alone.union (h : Alone P v) (g : Alone Q v) : Alone (fun l => P l ∨ Q l) v := by
  rintro l j (hl | hl) hj
  · exact h l j hl fun g => hj (.inl g)
  · exact g l j hl fun g => hj (.inr g)

theorem Remade.union (h : Remade P v w) (g : Remade Q v w) : Remade (fun l => P l ∨ Q l) v w := by
  have across : ∀ {R S : Location → Prop}, Remade R v w → Remade S v w → ∀ l j, R l → S j →
      (Shows w l j ↔ Shows v l j) := by
    intro R S hR hS l j hl hj
    by_cases both : R j
    · exact hR.shows_ l j hl both
    · exact iff_of_false (hR.second l j hl both) (hR.first l j hl both)
  refine ⟨⟨fun l hl => hl.elim (h.plain l) (g.plain l), ?_⟩, h.first.union g.first, h.second.union g.second⟩
  rintro l j (hl | hl) (hj | hj)
  · exact h.shows_ l j hl hj
  · exact across h g l j hl hj
  · exact across g h l j hl hj
  · exact g.shows_ l j hl hj

/-- What a place gets that is shared with no other does not matter to the others. -/
theorem Alone.assign {k : Location} {x : Option Entry} (h : Alone P v)
    (hv : ∀ j, v'.lookup j = if j = k then x else v.lookup j) (unshared : Unshared v' k) :
    Alone P v' := by
  intro l j hl hj shows_
  by_cases hlk : l = k
  · exact hj ((unshared.shows_iff.1 (hlk ▸ shows_)).trans hlk.symm ▸ hl)
  by_cases hjk : j = k
  · exact hj (hjk.trans (unshared.shows_iff.1 (hjk ▸ shows_.symm)).symm ▸ hl)
  · exact h l j hl hj ((shows_congr ((hv l).trans (if_neg hlk)) ((hv j).trans (if_neg hjk))).1 shows_)

/-- The same entry has been put at a place or taken from it. -/
theorem Remade.assign {k : Location} {x : Option Entry} (h : Remade P v w)
    (hv : ∀ j, v'.lookup j = if j = k then x else v.lookup j)
    (hw : ∀ j, w'.lookup j = if j = k then x else w.lookup j)
    (unshared : ∀ f, x = some (.file f) → f.peers = none) : Remade P v' w' := by
  have first : Unshared v' k := fun f hf => unshared f (((hv k).trans (if_pos rfl)).symm.trans hf)
  have second : Unshared w' k := fun f hf => unshared f (((hw k).trans (if_pos rfl)).symm.trans hf)
  refine ⟨⟨fun l hl => ?_, fun l j hl hj => ?_⟩, h.first.assign hv first, h.second.assign hw second⟩
  · rw [hv, hw]
    split
    · rfl
    · exact h.plain l hl
  · by_cases hlk : l = k
    · subst hlk
      rw [first.shows_iff, second.shows_iff]
    by_cases hjk : j = k
    · subst hjk
      have turn : ∀ {u : Volume}, Unshared u j → (Shows u l j ↔ l = j) :=
        fun hu => ⟨fun s => hu.shows_iff.1 s.symm, fun e => .inl e.symm⟩
      rw [turn first, turn second]
    · rw [shows_congr ((hv l).trans (if_neg hlk)) ((hv j).trans (if_neg hjk)),
        shows_congr ((hw l).trans (if_neg hlk)) ((hw j).trans (if_neg hjk))]
      exact h.shows_ l j hl hj

end Remade

section Relocate

variable {src dst : Location}

/-- Every entry after a move to where nothing is has come from one place. -/
theorem lookup_relocate_gone (hs : src ≠ []) (hd : dst ≠ []) (up : ¬ Below dst src)
    (gone : Gone v dst) (l : Location) (hl : ¬ Below l src) :
    (v.relocate src dst).lookup l = v.lookup (carry dst src l) := by
  by_cases hb : Below l dst
  · obtain ⟨r, rfl⟩ := below_iff.1 hb
    rw [carry_append]
    exact lookup_relocate_below hd hs up (fun k hk => gone k hk.1) r
  · rw [carry_of_not_below hb]
    exact lookup_relocate_of_not_below hl hb

theorem shows_relocate (hs : src ≠ []) (hd : dst ≠ []) (up : ¬ Below dst src)
    (gone : Gone v dst) {l j : Location} (hl : ¬ Below l src) (hj : ¬ Below j src) :
    Shows (v.relocate src dst) l j ↔ Shows v (carry dst src l) (carry dst src j) := by
  have same : j = l ↔ carry dst src j = carry dst src l := by
    refine ⟨fun e => by rw [e], fun e => ?_⟩
    by_cases bj : Below j dst <;> by_cases bl : Below l dst
    · obtain ⟨r, rfl⟩ := below_iff.1 bj
      obtain ⟨q, rfl⟩ := below_iff.1 bl
      rw [carry_append, carry_append] at e
      rw [List.append_cancel_right e]
    · rw [carry_of_not_below bl] at e
      exact absurd (e ▸ below_carry bj) hl
    · rw [carry_of_not_below bj] at e
      exact absurd (e ▸ below_carry bl) hj
    · rwa [carry_of_not_below bj, carry_of_not_below bl] at e
  unfold Shows
  rw [same, lookup_relocate_gone hs hd up gone l hl, lookup_relocate_gone hs hd up gone j hj]

theorem unshared_source (hs : src ≠ []) (up : ¬ Below dst src) (away : ¬ Below src dst)
    (hl : Below l src) : Unshared (v.relocate src dst) l :=
  unshared_of_none <| lookup_relocate_source hs hl fun hb => (hb.total hl).elim up away

theorem at_carry (hsrc : ∀ l, Below l src → P l) (hdst : ∀ l, Below l dst → P l) (l : Location) :
    P (carry dst src l) ↔ P l := by
  by_cases hb : Below l dst
  · exact iff_of_true (hsrc _ (below_carry hb)) (hdst l hb)
  · rw [carry_of_not_below hb]

variable (hs : src ≠ []) (hd : dst ≠ []) (up : ¬ Below dst src) (away : ¬ Below src dst)
  (hsrc : ∀ l, Below l src → P l) (hdst : ∀ l, Below l dst → P l)
include hs hd up away hsrc hdst

theorem Alone.relocate (h : Alone P v) (gone : Gone v dst) : Alone P (v.relocate src dst) := by
  intro l j hl hj shows_
  by_cases bl : Below l src
  · exact hj ((unshared_source hs up away bl).shows_iff.1 shows_ ▸ hl)
  · have bj : ¬ Below j src := fun b => hj (hsrc j b)
    refine h _ _ ((at_carry hsrc hdst l).2 hl) (fun g => hj ((at_carry hsrc hdst j).1 g)) ?_
    exact (shows_relocate hs hd up gone bl bj).1 shows_

/-- A tree has been moved in both volumes to where nothing was. -/
theorem Remade.relocate (h : Remade P v w) (gone : Gone v dst) (gone' : Gone w dst) :
    Remade P (v.relocate src dst) (w.relocate src dst) := by
  refine ⟨⟨fun l hl => ?_, fun l j hl hj => ?_⟩, h.first.relocate hs hd up away hsrc hdst gone,
    h.second.relocate hs hd up away hsrc hdst gone'⟩
  · by_cases bl : Below l src
    · have away_ : ¬ Below l dst := fun hb => (hb.total bl).elim up away
      rw [lookup_relocate_source hs bl away_, lookup_relocate_source hs bl away_]
    · rw [lookup_relocate_gone hs hd up gone l bl, lookup_relocate_gone hs hd up gone' l bl]
      exact h.plain _ ((at_carry hsrc hdst l).2 hl)
  · by_cases bl : Below l src
    · rw [(unshared_source hs up away bl).shows_iff, (unshared_source hs up away bl).shows_iff]
    by_cases bj : Below j src
    · have turn : ∀ u : Volume, Shows (u.relocate src dst) l j ↔ l = j := fun u =>
        ⟨fun g => (unshared_source hs up away bj).shows_iff.1 g.symm, fun e => .inl e.symm⟩
      rw [turn, turn]
    · rw [shows_relocate hs hd up gone bl bj, shows_relocate hs hd up gone' bl bj]
      exact h.shows_ _ _ ((at_carry hsrc hdst l).2 hl) ((at_carry hsrc hdst j).2 hj)

end Relocate

/-- How a change of one volume compares with a change of another: at some places entries have been
removed until the same are left, or what stands there has been made anew. -/
inductive Redone (P : Location → Prop) (v v' w w' : Volume) : Prop
  | shed (first : Thins v v') (second : Thins w w') (agree : AgreeOn P v' w')
  | remade (made : Remade P v' w')

theorem Redone.alike {v' w' : Volume} (h : Redone P v v' w w') : AlikeOn P v' w' := by
  cases h with
  | shed _ _ agree =>
    exact ⟨fun l hl => by rw [agree l hl], fun l j hl hj => shows_congr (agree l hl) (agree j hj)⟩
  | remade made => exact made.toAlikeOn

section Diamond

/-- Two changes, each at places of its own, made in both orders. -/
structure Diamond (P Q : Location → Prop) (m a ab b ba : Volume) : Prop where
  apart : ∀ l, P l → ¬ Q l
  first : Only P m a
  second : Only Q a ab
  first' : Only Q m b
  second' : Only P b ba
  alike : Redone P m a b ba
  alike' : Redone Q m b a ab

variable {m a b ab ba : Volume}

theorem Diamond.swap (h : Diamond P Q m a ab b ba) : Diamond Q P m b ba a ab :=
  ⟨fun l hq hp => h.apart l hp hq, h.first', h.second', h.first, h.second, h.alike', h.alike⟩

/-- Where neither change is, nothing changes. -/
theorem Diamond.other (h : Diamond P Q m a ab b ba) (hp : ¬ P l) (hq : ¬ Q l) :
    ba.lookup l = ab.lookup l :=
  ((h.second' l hp).trans (h.first' l hq)).trans ((h.second l hq).trans (h.first l hp)).symm

theorem Diamond.here (h : Diamond P Q m a ab b ba) (hl : P l) : ab.lookup l = a.lookup l :=
  h.second l (h.apart l hl)

/-- What the first change has made anew shares no file with anything else, in either order. -/
theorem Diamond.shows_remade (h : Diamond P Q m a ab b ba) (made : Remade P a ba) (hl : P l) :
    Shows ba l j ↔ Shows ab l j := by
  by_cases hj : P j
  · rw [made.shows_ l j hl hj, shows_congr (h.here hl) (h.here hj)]
  refine iff_of_false (made.second l j hl hj) fun shows_ => ?_
  by_cases hq : Q j
  · cases h.alike' with
    | shed _ thins _ =>
      exact made.first l j hl hj (shows_.of_thins thins)
    | remade made' => exact made'.second j l hq (h.apart l hl) shows_.symm
  · exact made.first l j hl hj ((shows_congr (h.here hl) (h.second j hq)).1 shows_)

/-- In whatever order they are made, the two changes come to the same. -/
theorem Diamond.same (h : Diamond P Q m a ab b ba) : Same ab ba := by
  have swapped := h.swap
  refine ⟨fun l _ => ?_, fun l j _ _ => ?_⟩
  · by_cases hp : P l
    · rw [h.here hp]
      exact h.alike.alike.plain l hp
    by_cases hq : Q l
    · rw [swapped.here hq]
      exact (h.alike'.alike.plain l hq).symm
    · rw [h.other hp hq]
  -- Either an entry is the very same in both orders, or it has been made anew.
  have exact_or : ∀ l, ba.lookup l = ab.lookup l ∨ (P l ∧ Remade P a ba) ∨ (Q l ∧ Remade Q b ab) := by
    intro l
    by_cases hp : P l
    · rcases h.alike with ⟨_, _, agree⟩ | made
      · exact .inl ((agree l hp).trans (h.here hp).symm)
      · exact .inr (.inl ⟨hp, made⟩)
    by_cases hq : Q l
    · rcases h.alike' with ⟨_, _, agree⟩ | made
      · exact .inl ((swapped.here hq).trans (agree l hq).symm)
      · exact .inr (.inr ⟨hq, made⟩)
    · exact .inl (h.other hp hq)
  have remade : ∀ l j, (P l ∧ Remade P a ba) ∨ (Q l ∧ Remade Q b ab) → (Shows ba l j ↔ Shows ab l j) := by
    rintro l j (⟨hp, made⟩ | ⟨hq, made⟩)
    · exact h.shows_remade made hp
    · exact (swapped.shows_remade made hq).symm
  rcases exact_or l with el | ml
  · rcases exact_or j with ej | mj
    · exact shows_congr el ej
    · have turned := remade j l mj
      exact ⟨fun g => (turned.1 g.symm).symm, fun g => (turned.2 g.symm).symm⟩
  · exact remade l j ml

end Diamond

end Volume
end PinnedDeps
