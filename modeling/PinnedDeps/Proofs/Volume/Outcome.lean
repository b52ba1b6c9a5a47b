import PinnedDeps.Proofs.Path
import PinnedDeps.Proofs.Volume.Passage

/-!
What an operation has done if it was not refused, and when an operation on a name in a directory is
not refused. `Opens` says which directory a path leads to.
-/
namespace PinnedDeps.Volume

open Bytes (slash dot)

variable {v w v' : Volume} {cwd l e e' : Location} {p q : Path} {L : Landing}

/-- The path leads to the directory at a location. -/
def Opens (v : Volume) (cwd : Location) (p : Path) (e : Location) : Prop :=
  ∃ n, n ≤ maxLinks ∧ Leads v n (startOf cwd p.bytes) p.segments e

theorem Opens.unique (h : Opens v cwd p e) (g : Opens v cwd p e') : e = e' := by
  obtain ⟨n, _, h⟩ := h
  obtain ⟨m, _, g⟩ := g
  exact (h.unique g).2

theorem Opens.keep (h : Opens v cwd p e) (k : Keeps v w) : Opens w cwd p e := by
  obtain ⟨n, hn, h⟩ := h
  exact ⟨n, hn, h.keep k⟩

/-- The path leads to a directory, whatever is changed inside it. -/
def Fixed (v : Volume) (cwd : Location) (p : Path) (e : Location) : Prop :=
  ∀ u, Within e v u → Opens u cwd p e

theorem Fixed.opens (h : Fixed v cwd p e) : Opens v cwd p e := h v (.refl e v)

theorem Fixed.within (h : Fixed v cwd p e) (g : Within e v w) : Fixed w cwd p e :=
  fun u hu => h u (g.trans _ _ _ hu)

theorem lift_ok {α : Type} {x : Except SystemError α} {a : α} : lift x = .ok a ↔ x = .ok a := by
  cases x <;> simp [lift]

theorem bind_ok {ε α β : Type} {x : Except ε α} {f : α → Except ε β} {b : β} :
    (x >>= f) = .ok b ↔ ∃ a, x = .ok a ∧ f a = .ok b := by
  cases x with
  | error e =>
    constructor
    · intro h
      cases h
    · rintro ⟨a, h, _⟩
      cases h
  | ok a =>
    constructor
    · exact fun h => ⟨a, rfl, h⟩
    · rintro ⟨a, h, g⟩
      cases h
      exact g

theorem reach_ok {follow : Bool} : reach v cwd p follow = .ok L ↔ checkPath p = .ok () ∧
    Passage v follow maxLinks (startOf cwd p.bytes) (strides p.bytes) (.ok L) := by
  unfold reach
  rw [bind_ok, passage_iff]
  exact ⟨fun ⟨_, h, g⟩ => ⟨h, lift_ok.1 g⟩, fun ⟨h, g⟩ => ⟨(), h, lift_ok.2 g⟩⟩

theorem reachName_ok : reachName v cwd p = .ok L ↔ checkPath p = .ok () ∧
    Passage v false maxLinks (startOf cwd p.bytes) p.segments (.ok L) := by
  unfold reachName
  rw [bind_ok, passage_iff]
  exact ⟨fun ⟨_, h, g⟩ => ⟨h, lift_ok.1 g⟩, fun ⟨h, g⟩ => ⟨(), h, lift_ok.2 g⟩⟩

/-- Without a slash at the end, a path is followed to its last name in the same way for any call. -/
theorem reach_eq_reachName (h : p.endsInSlash = false) : reach v cwd p false = reachName v cwd p := by
  unfold reach reachName
  rw [Path.strides_eq h]

theorem found_ok {x : Entry} : found v L = .ok (l, x) ↔ l = L.location ∧ v.lookup l = some x := by
  unfold found
  split
  · rename_i y hy
    constructor
    · intro h
      cases h
      exact ⟨rfl, hy⟩
    · rintro ⟨rfl, h⟩
      rw [hy] at h
      cases h
      rfl
  · rename_i hn
    constructor
    · intro h
      cases h
    · rintro ⟨rfl, h⟩
      rw [hn] at h
      cases h

theorem stat_ok {x : Entry} : v.stat cwd p = .ok (l, x) ↔
    ∃ L, reach v cwd p true = .ok L ∧ l = L.location ∧ v.lookup l = some x := by
  unfold stat
  rw [bind_ok]
  simp only [found_ok]

theorem entryAt_ok {x : Entry} : v.entryAt cwd p = .ok (l, x) ↔
    ∃ L, reach v cwd p false = .ok L ∧ l = L.location ∧ v.lookup l = some x := by
  unfold entryAt
  rw [bind_ok]
  simp only [found_ok]

/-- A path that leads to a directory opens it. -/
theorem opens_of_leadsToDir (h : v.leadsToDir cwd p = true) :
    ∃ e, Opens v cwd p e ∧ v.lookup e = some .dir := by
  unfold leadsToDir at h
  split at h
  · rename_i l hl
    obtain ⟨L, hL, rfl, hx⟩ := stat_ok.1 hl
    obtain ⟨n, hn, g⟩ := (reach_ok.1 hL).2.leads_of_dir hx
    refine ⟨_, ⟨n, hn, ?_⟩, hx⟩
    cases hp : p.endsInSlash with
    | false => rwa [Path.strides_eq hp] at g
    | true =>
      rw [Path.strides_of_slash hp] at g
      obtain ⟨k, m, e, rfl, g, last⟩ := g.split
      cases last with
      | stay last => cases last; exact g
      | enter hs => exact absurd rfl hs.notDot
      | follow hs => exact absurd rfl hs.notDot
  · cases h

/-- An entry that is no link is seen with links followed as it is without. -/
theorem stat_of_entryAt {x : Entry} (h : v.entryAt cwd p = .ok (l, x)) (hx : ∀ t, x ≠ .link t) :
    v.stat cwd p = .ok (l, x) := by
  obtain ⟨L, hL, rfl, hl⟩ := entryAt_ok.1 h
  obtain ⟨hc, hL⟩ := reach_ok.1 hL
  refine stat_ok.2 ⟨L, reach_ok.2 ⟨hc, hL.followed fun t ht => ?_⟩, rfl, hl⟩
  rw [hl] at ht
  cases ht
  exact hx t rfl

theorem Thins.stat {x : Entry} (h : Thins v w) (g : w.stat cwd p = .ok (l, x)) :
    v.stat cwd p = .ok (l, x) := by
  obtain ⟨L, hL, rfl, hx⟩ := stat_ok.1 g
  obtain ⟨hc, hL⟩ := reach_ok.1 hL
  exact stat_ok.2 ⟨L, reach_ok.2 ⟨hc, hL.of_poorer h.poorer (by simp [hx])⟩, rfl, h _ _ hx⟩

theorem leadsSomewhere_iff :
    v.leadsSomewhere cwd p = true ↔ ∃ l x, v.stat cwd p = .ok (l, x) := by
  unfold leadsSomewhere
  cases h : v.stat cwd p with
  | error e => simp [Except.isOk, Except.toBool]
  | ok y => exact iff_of_true rfl ⟨y.1, y.2, rfl⟩

theorem leadsSomewhere_of_readFile {b : Bytes} (h : v.readFile cwd p = .ok b) :
    v.leadsSomewhere cwd p = true := by
  unfold readFile at h
  obtain ⟨⟨l, x⟩, seen, -⟩ := bind_ok.1 h
  exact leadsSomewhere_iff.2 ⟨l, x, seen⟩

theorem Thins.leadsSomewhere (h : Thins v w) (g : w.leadsSomewhere cwd p = true) :
    v.leadsSomewhere cwd p = true := by
  obtain ⟨l, x, hs⟩ := leadsSomewhere_iff.1 g
  exact leadsSomewhere_iff.2 ⟨l, x, h.stat hs⟩

theorem Thins.entryAt {x : Entry} (h : Thins v w) (g : w.entryAt cwd p = .ok (l, x)) :
    v.entryAt cwd p = .ok (l, x) := by
  obtain ⟨L, hL, rfl, hx⟩ := entryAt_ok.1 g
  obtain ⟨hc, hL⟩ := reach_ok.1 hL
  exact entryAt_ok.2 ⟨L, reach_ok.2 ⟨hc, hL.of_poorer h.poorer (by simp [hx])⟩, rfl, h _ _ hx⟩

/-- What is reached in a thinner volume is reached in the same way in the fuller one. -/
theorem Thins.reachName (h : Thins v w) (g : reachName w cwd p = .ok L) :
    reachName v cwd p = .ok L := by
  obtain ⟨usable, g⟩ := reachName_ok.1 g
  exact reachName_ok.2 ⟨usable, g.keep h.poorer.keeps (by simp)⟩

/-- Where an entry is seen, a call for its name gets to something that is there. -/
theorem reachName_of_entryAt {x : Entry} (h : v.entryAt cwd p = .ok (l, x)) :
    ∃ L, reachName v cwd p = .ok L ∧ ∀ d n, L = .name d n → (v.lookup (n :: d)).isSome := by
  obtain ⟨L, hL, rfl, hx⟩ := entryAt_ok.1 h
  cases hs : p.endsInSlash with
  | false =>
    rw [reach_eq_reachName hs] at hL
    refine ⟨L, hL, ?_⟩
    rintro d n rfl
    exact Option.isSome_of_eq_some hx
  | true =>
    obtain ⟨usable, walked⟩ := reach_ok.1 hL
    rw [Path.strides_of_slash hs] at walked
    obtain ⟨k, e, hk, way, -⟩ := walked.leads (by simp)
    obtain ⟨L', walked', there⟩ := way.named hk
    exact ⟨L', reachName_ok.2 ⟨usable, walked'⟩, there⟩

theorem passage_last {N : Nat} {s : Bytes} (hd : s ≠ [dot]) (hu : s ≠ [dot, dot]) :
    Passage v false N e [s] (.ok L) ↔ s.length ≤ nameLimit ∧ L = .name e s := by
  constructor
  · intro h
    cases h with
    | stay => exact absurd rfl hd
    | up => exact absurd rfl hu
    | enter _ _ hne => exact absurd rfl hne
    | follow _ _ hne => exact absurd ⟨rfl, rfl⟩ hne
    | stop hs => exact ⟨hs.short, rfl⟩
  · rintro ⟨hl, rfl⟩
    exact .stop ⟨hd, hu, hl⟩ (by simp)

theorem reachName_of_endsInName (hp : p.EndsInName) (h : reachName v cwd p = .ok L) :
    ∃ d n, L = .name d n := by
  obtain ⟨pre, z, hz, hd, hu⟩ := hp.last
  obtain ⟨_, h⟩ := reachName_ok.1 h
  rw [hz] at h
  obtain ⟨k, e, _, _, h⟩ := h.leads (by simp)
  exact ⟨e, z, ((passage_last hd hu).1 h).2⟩

/-- What leads to a directory is a directory or a link. -/
theorem Opens.entryAt (h : Opens v cwd p e) (hp : p.EndsInName) (hc : checkPath p = .ok ()) :
    ∃ n d x, reachName v cwd p = .ok (.name d n) ∧ v.entryAt cwd p = .ok (n :: d, x) ∧
      (x = .dir ∧ n :: d = e ∨ ∃ t, x = .link t) := by
  obtain ⟨N, hN, h⟩ := h
  obtain ⟨pre, z, hz, hd, hu⟩ := hp.last
  rw [hz] at h
  obtain ⟨k, m, d, rfl, h, g⟩ := h.split
  have reached : ∀ hl : z.length ≤ nameLimit, reachName v cwd p = .ok (.name d z) := by
    intro hl
    rw [reachName_ok, hz]
    exact ⟨hc, h.passage (by omega) (by simp) (.stop ⟨hd, hu, hl⟩ (by simp))⟩
  have there : ∀ {x}, v.lookup (z :: d) = some x → z.length ≤ nameLimit →
      v.entryAt cwd p = .ok (z :: d, x) := by
    intro x hx hl
    rw [entryAt_ok, reach_eq_reachName hp.noSlash]
    exact ⟨_, reached hl, rfl, hx⟩
  cases g with
  | stay => exact absurd rfl hd
  | up => exact absurd rfl hu
  | enter hs hl g =>
    cases g
    exact ⟨z, d, _, reached hs.short, there hl hs.short, .inl ⟨rfl, rfl⟩⟩
  | follow hs hl _ => exact ⟨z, d, _, reached hs.short, there hl hs.short, .inr ⟨_, rfl⟩⟩

theorem Opens.eq_of_entryAt (h : Opens v cwd p e) (hp : p.EndsInName)
    (hx : v.entryAt cwd p = .ok (l, .dir)) : e = l := by
  obtain ⟨L, hL, _, _⟩ := entryAt_ok.1 hx
  obtain ⟨_, _, x, _, hx', hxe⟩ := h.entryAt hp (reach_ok.1 hL).1
  rw [hx] at hx'
  cases hx'
  rcases hxe with ⟨_, rfl⟩ | ⟨_, g⟩
  · rfl
  · cases g

theorem checkPath_of_div {n : String} (hn : IsName (Bytes.ofText n)) (hp : p.bytes ≠ [])
    (h : checkPath (p / n) = .ok ()) : checkPath p = .ok () := by
  obtain ⟨m, hm⟩ := Path.bytes_join (p := p) (q := ⟨Bytes.ofText n⟩) hn.relative
  have hm : (p / n).bytes = p.bytes ++ m ++ Bytes.ofText n := hm
  obtain ⟨hnul, _, hlen⟩ := checkPath_ok.1 h
  rw [hm] at hnul hlen
  refine checkPath_ok.2 ⟨?_, hp, ?_⟩
  · simp only [Bytes.hasNul, List.contains_append, Bool.or_eq_false_iff] at hnul
    exact hnul.1.1
  · simp only [List.length_append] at hlen
    omega

section Outcome

theorem makeDir_ok (h : v.makeDir cwd p = .ok v') : ∃ d n, reachName v cwd p = .ok (.name d n) ∧
    v.lookup (n :: d) = none ∧ v' = v.put (n :: d) .dir := by
  unfold makeDir at h
  obtain ⟨L, hL, g⟩ := bind_ok.1 h
  cases L with
  | place l => cases g
  | name d n =>
    refine ⟨d, n, hL, ?_⟩
    simp only at g
    split at g
    · cases g
    · rename_i hn
      cases g
      exact ⟨by simpa using hn, rfl⟩

theorem makeLink_ok {t : Bytes} (h : v.makeLink cwd t p = .ok v') :
    ∃ d n, reachName v cwd p = .ok (.name d n) ∧ p.endsInSlash = false ∧
      v.lookup (n :: d) = none ∧ v' = v.put (n :: d) (.link t) := by
  unfold makeLink at h
  obtain ⟨_, _, h⟩ := bind_ok.1 h
  obtain ⟨L, hL, g⟩ := bind_ok.1 h
  cases L with
  | place l => cases g
  | name d n =>
    refine ⟨d, n, hL, ?_⟩
    simp only at g
    split at g
    · cases g
    · rename_i hn
      split at g
      · cases g
      · rename_i hs
        cases g
        exact ⟨by simpa using hs, by simpa using hn, rfl⟩

theorem removeFile_ok (h : v.removeFile cwd p = .ok v') :
    ∃ d n x, reachName v cwd p = .ok (.name d n) ∧ p.endsInSlash = false ∧
      v.lookup (n :: d) = some x ∧ x ≠ .dir ∧ v' = v.erase (n :: d) := by
  unfold removeFile at h
  obtain ⟨L, hL, g⟩ := bind_ok.1 h
  cases L with
  | place l => cases g
  | name d n =>
    simp only at g
    split at g
    · cases g
    · cases g
    · rename_i x hd hx
      split at g
      · cases g
      · rename_i hs
        cases g
        exact ⟨d, n, x, hL, by simpa using hs, hx, hd, rfl⟩

theorem removeDir_ok (h : v.removeDir cwd p = .ok v') :
    ∃ d n, reachName v cwd p = .ok (.name d n) ∧ v.lookup (n :: d) = some .dir ∧
      v.names (n :: d) = [] ∧ v' = v.erase (n :: d) := by
  unfold removeDir at h
  obtain ⟨L, hL, g⟩ := bind_ok.1 h
  cases L with
  | place l => cases l <;> cases g
  | name d n =>
    simp only at g
    split at g
    · cases g
    · rename_i hd
      split at g
      · cases g
        exact ⟨d, n, hL, hd, ‹_›, rfl⟩
      · cases g
    · cases g

theorem openFile_ok {mode : Nat} {keep : Bool} (h : v.openFile cwd p mode keep = .ok (l, v')) :
    ∃ d n, l = n :: d ∧ p.endsInSlash = false ∧ reach v cwd p true = .ok (.name d n) ∧
      (v.lookup l = none ∧ v' = v.put l (.file ⟨[], mode, none⟩) ∨
        ∃ f, v.lookup l = some (.file f) ∧
          v' = if keep then v else v.adjust l ({ · with bytes := [] })) := by
  unfold openFile at h
  obtain ⟨L, hL, g⟩ := bind_ok.1 h
  have hs : p.endsInSlash = false := by
    cases hp : p.endsInSlash with
    | false => rfl
    | true =>
      simp only [reachFile, hp, if_true] at hL
      obtain ⟨_, _, hL⟩ := bind_ok.1 hL
      cases hL
  have hL : reach v cwd p true = .ok L := by simpa [reachFile, hs] using hL
  cases L with
  | place l => cases g
  | name d n =>
    simp only at g
    split at g
    · rename_i hn
      cases g
      exact ⟨d, n, rfl, hs, hL, .inl ⟨hn, rfl⟩⟩
    · rename_i f hf
      cases g
      exact ⟨d, n, rfl, hs, hL, .inr ⟨f, hf, rfl⟩⟩
    · cases g
    · cases g

theorem names_of_replaceable {dst : Location} {x : Entry} (h : v.replaceable dst x .dir = .ok ()) :
    v.names dst = [] := by
  cases x with
  | dir =>
    simp only [replaceable] at h
    split at h
    · assumption
    · cases h
  | file f => cases h
  | link t => cases h

theorem rename_ok (h : v.rename cwd p q = .ok v') :
    ∃ d n d' n', reachName v cwd p = .ok (.name d n) ∧ reachName v cwd q = .ok (.name d' n') ∧
      (v.lookup (n :: d)).isSome ∧
      (v' = v ∨ ¬ Below (n' :: d') (n :: d) ∧ ¬ Below (n :: d) (n' :: d') ∧
        (v.lookup (n' :: d') = some .dir → v.names (n' :: d') = []) ∧
        v' = v.relocate (n :: d) (n' :: d')) := by
  unfold rename at h
  obtain ⟨a, ha, h⟩ := bind_ok.1 h
  obtain ⟨b, hb, h⟩ := bind_ok.1 h
  cases a with
  | place l => cases h
  | name d n =>
    cases b with
    | place l => cases h
    | name d' n' =>
      refine ⟨d, n, d', n', ha, hb, ?_⟩
      simp only at h
      split at h
      · cases h
      · rename_i x hx
        refine ⟨by simp [hx], ?_⟩
        split at h
        · cases h
        split at h
        · cases h; exact .inl rfl
        split at h
        · cases h
        split at h
        · cases h
        rename_i h1 h2
        split at h
        · rename_i hn
          cases h
          refine .inr ⟨h1, h2, fun hd => ?_, rfl⟩
          rw [hn] at hd
          cases hd
        · rename_i old ho
          split at h
          · cases h; exact .inl rfl
          · obtain ⟨_, replaced, h⟩ := bind_ok.1 h
            cases h
            refine .inr ⟨h1, h2, fun hd => ?_, rfl⟩
            rw [ho] at hd
            cases hd
            exact names_of_replaceable replaced

end Outcome

theorem passage_name_some {follow : Bool} {N : Nat} {s : Bytes} (hs : IsName s)
    (h : Passage v follow N e [s] (.ok L)) (hL : (v.lookup L.location).isSome) :
    (v.lookup (s :: e)).isSome := by
  cases h with
  | stay => exact absurd rfl hs.notDot
  | up => exact absurd rfl hs.notUp
  | enter _ _ hne => exact absurd rfl hne
  | follow _ hl => simp [hl]
  | stop => exact hL

theorem passage_name_short {follow : Bool} {N : Nat} {s : Bytes} (hs : IsName s)
    (h : Passage v follow N e [s] (.ok L)) : s.length ≤ nameLimit := by
  cases h with
  | stay => exact absurd rfl hs.notDot
  | up => exact absurd rfl hs.notUp
  | enter hs _ _ => exact hs.short
  | follow hs _ _ => exact hs.short
  | stop hs => exact hs.short

section Name

variable {n : String} (hn : IsName (Bytes.ofText n))
include hn

/-- A walk to a name in a directory comes past the directory. -/
theorem reach_div_opens {follow : Bool} (h : reach v cwd (p / n) follow = .ok L) :
    checkPath (p / n) = .ok () ∧ (Bytes.ofText n).length ≤ nameLimit ∧ ∃ e, Opens v cwd p e := by
  obtain ⟨hc, h⟩ := reach_ok.1 h
  rw [Path.strides_eq (Path.endsInSlash_div p hn), Path.segments_div p hn,
    Path.start_div p hn] at h
  obtain ⟨k, e, hk, g, h⟩ := h.leads (by simp)
  exact ⟨hc, passage_name_short hn h, e, k, hk, g⟩

/-- Walking to a name in a directory is walking to the directory. -/
theorem reachName_div : reachName v cwd (p / n) = .ok L ↔ checkPath (p / n) = .ok () ∧
    (Bytes.ofText n).length ≤ nameLimit ∧ ∃ e, Opens v cwd p e ∧ L = .name e (Bytes.ofText n) := by
  rw [reachName_ok, Path.segments_div p hn, Path.start_div p hn]
  constructor
  · rintro ⟨hc, h⟩
    obtain ⟨k, e, hk, g, h⟩ := h.leads (by simp)
    obtain ⟨hl, rfl⟩ := (passage_last hn.notDot hn.notUp).1 h
    exact ⟨hc, hl, e, ⟨k, hk, g⟩, rfl⟩
  · rintro ⟨hc, hl, e, ⟨k, hk, g⟩, rfl⟩
    exact ⟨hc, g.passage hk (by simp) ((passage_last hn.notDot hn.notUp).2 ⟨hl, rfl⟩)⟩

theorem entryAt_div {x : Entry} : v.entryAt cwd (p / n) = .ok (l, x) ↔
    checkPath (p / n) = .ok () ∧ (Bytes.ofText n).length ≤ nameLimit ∧
      ∃ e, Opens v cwd p e ∧ l = Bytes.ofText n :: e ∧ v.lookup l = some x := by
  rw [entryAt_ok, reach_eq_reachName (Path.endsInSlash_div p hn)]
  simp only [reachName_div hn]
  constructor
  · rintro ⟨_, ⟨hc, hl, e, h, rfl⟩, hL, hx⟩
    exact ⟨hc, hl, e, h, hL, hx⟩
  · rintro ⟨hc, hl, e, h, hL, hx⟩
    exact ⟨_, ⟨hc, hl, e, h, rfl⟩, hL, hx⟩

/-- Whatever a name in a directory leads to, the directory is there and the name stands in it. -/
theorem stat_div {x : Entry} (h : v.stat cwd (p / n) = .ok (l, x)) :
    ∃ e, Opens v cwd p e ∧ (v.lookup (Bytes.ofText n :: e)).isSome := by
  obtain ⟨L, hL, rfl, hx⟩ := stat_ok.1 h
  obtain ⟨_, hL⟩ := reach_ok.1 hL
  rw [Path.strides_eq (Path.endsInSlash_div p hn), Path.segments_div p hn,
    Path.start_div p hn] at hL
  obtain ⟨k, e, hk, g, hL⟩ := hL.leads (by simp)
  exact ⟨e, ⟨k, hk, g⟩, passage_name_some hn hL (by simp [hx])⟩

/-- What a name in a directory leads to is the directory of that name, if the name is no link. -/
theorem Opens.of_div (h : Opens v cwd (p / n) e) : ∃ d, Opens v cwd p d ∧
    (e = Bytes.ofText n :: d ∨ ∃ t, v.lookup (Bytes.ofText n :: d) = some (.link t)) := by
  obtain ⟨N, hN, h⟩ := h
  rw [Path.segments_div p hn, Path.start_div p hn] at h
  obtain ⟨k, m, d, rfl, h, g⟩ := h.split
  refine ⟨d, ⟨k, by omega, h⟩, ?_⟩
  generalize Bytes.ofText n = s at hn g
  cases g with
  | stay => exact absurd rfl hn.notDot
  | up => exact absurd rfl hn.notUp
  | enter _ _ g =>
    cases g
    exact .inl rfl
  | follow _ hl _ => exact .inr ⟨_, hl⟩

/-- A path that enters a name in a directory enters the directory of that name. -/
theorem Opens.enters {d : Location} (h : Opens v cwd (p / n) e) (opens : Opens v cwd p d)
    (nolink : ∀ t, v.lookup (Bytes.ofText n :: d) ≠ some (.link t)) :
    e = Bytes.ofText n :: d ∧ v.lookup (Bytes.ofText n :: d) = some .dir ∧
      (Bytes.ofText n).length ≤ nameLimit := by
  obtain ⟨N, hN, h⟩ := h
  rw [Path.segments_div p hn, Path.start_div p hn] at h
  obtain ⟨k, m, d', rfl, h, g⟩ := h.split
  obtain rfl : d' = d := (show Opens v cwd p d' from ⟨k, by omega, h⟩).unique opens
  generalize Bytes.ofText n = s at hn nolink g ⊢
  cases g with
  | stay => exact absurd rfl hn.notDot
  | up => exact absurd rfl hn.notUp
  | enter hs hl g =>
    cases g
    exact ⟨rfl, hl, hs.short⟩
  | follow _ hl _ => exact absurd hl (nolink _)

theorem opens_div {d : Location} (h : Opens v cwd p e) (hl : (Bytes.ofText n).length ≤ nameLimit)
    (hd : v.lookup (Bytes.ofText n :: e) = some .dir) :
    Opens v cwd (p / n) d ↔ d = Bytes.ofText n :: e := by
  obtain ⟨k, hk, h⟩ := h
  have go : Leads v (k + 0) (startOf cwd p.bytes) (p.segments ++ [Bytes.ofText n])
      (Bytes.ofText n :: e) := h.append (.enter ⟨hn.notDot, hn.notUp, hl⟩ hd .done)
  unfold Opens
  rw [Path.segments_div p hn, Path.start_div p hn]
  constructor
  · rintro ⟨m, _, g⟩
    exact (g.unique go).2
  · rintro rfl
    exact ⟨k + 0, hk, go⟩

/-- Where no link stands, a name is reached with links followed as it is without. -/
theorem reach_div {follow : Bool} (hc : checkPath (p / n) = .ok ())
    (hl : (Bytes.ofText n).length ≤ nameLimit) (h : Opens v cwd p e)
    (hx : follow = true → ∀ t, v.lookup (Bytes.ofText n :: e) ≠ some (.link t)) :
    reach v cwd (p / n) follow = .ok (.name e (Bytes.ofText n)) := by
  obtain ⟨k, hk, h⟩ := h
  refine reach_ok.2 ⟨hc, ?_⟩
  rw [Path.strides_eq (Path.endsInSlash_div p hn), Path.segments_div p hn, Path.start_div p hn]
  exact h.passage hk (by simp) (.stop ⟨hn.notDot, hn.notUp, hl⟩ hx)

/-- Either a path to a name can be used, or it is refused for one reason, whatever the volume. -/
theorem usable_or_refused (p : Path) : (checkPath (p / n) = .ok () ∧ (Bytes.ofText n).length ≤ nameLimit) ∨
    ∃ x, ∀ (v : Volume) cwd e, Opens v cwd p e → reachName v cwd (p / n) = .error x ∧
      ∀ follow, reach v cwd (p / n) follow = .error x := by
  cases hc : checkPath (p / n) with
  | error x =>
    refine .inr ⟨x, fun v cwd e _ => ?_⟩
    unfold reachName reach
    rw [hc]
    exact ⟨rfl, fun _ => rfl⟩
  | ok _ =>
    by_cases hl : (Bytes.ofText n).length ≤ nameLimit
    · exact .inl ⟨rfl, hl⟩
    refine .inr ⟨.system .nameTooLong, fun v cwd e ⟨k, hk, h⟩ => ?_⟩
    have walked : ∀ follow, walk v follow maxLinks (startOf cwd p.bytes) (p.segments ++ [Bytes.ofText n]) =
        .error .nameTooLong := fun follow =>
      (h.passage hk (by simp) (.long hn.notDot hn.notUp (by omega))).eq_walk
    unfold reachName reach
    rw [hc, Path.strides_eq (Path.endsInSlash_div p hn), Path.segments_div p hn, Path.start_div p hn]
    refine ⟨?_, fun follow => ?_⟩
    · rw [walked]
      rfl
    · rw [walked]
      rfl

section At

variable (hc : checkPath (p / n) = .ok ()) (hl : (Bytes.ofText n).length ≤ nameLimit)
  (h : Opens v cwd p e)
include hc hl h

theorem reachName_eq : reachName v cwd (p / n) = .ok (.name e (Bytes.ofText n)) :=
  (reachName_div hn).2 ⟨hc, hl, e, h, rfl⟩

theorem entryAt_eq : v.entryAt cwd (p / n) = found v (.name e (Bytes.ofText n)) := by
  unfold entryAt
  rw [reach_div hn hc hl h (by simp)]
  rfl

theorem removeFile_eq : v.removeFile cwd (p / n) = match v.lookup (Bytes.ofText n :: e) with
    | none => .error SystemError.noEntry
    | some .dir => .error SystemError.isDirectory
    | some _ => .ok (v.erase (Bytes.ofText n :: e)) := by
  unfold removeFile
  rw [reachName_eq hn hc hl h, Path.endsInSlash_div p hn]
  simp only [bind, Except.bind]
  cases v.lookup (Bytes.ofText n :: e) with
  | none => rfl
  | some x => cases x <;> rfl

theorem removeDir_eq (hd : v.lookup (Bytes.ofText n :: e) = some .dir)
    (he : v.names (Bytes.ofText n :: e) = []) :
    v.removeDir cwd (p / n) = .ok (v.erase (Bytes.ofText n :: e)) := by
  unfold removeDir
  rw [reachName_eq hn hc hl h]
  simp [bind, Except.bind, hd, he]

theorem makeDir_new (hx : v.lookup (Bytes.ofText n :: e) = none) :
    v.makeDir cwd (p / n) = .ok (v.put (Bytes.ofText n :: e) .dir) := by
  unfold makeDir
  rw [reachName_eq hn hc hl h]
  simp [bind, Except.bind, hx]

theorem openNew_new (mode : Nat) (hx : v.lookup (Bytes.ofText n :: e) = none) :
    v.openNew cwd (p / n) mode =
      .ok (Bytes.ofText n :: e, v.put (Bytes.ofText n :: e) (.file ⟨[], mode, none⟩)) := by
  unfold openNew
  rw [reachName_eq hn hc hl h]
  simp [bind, Except.bind, hx, Path.endsInSlash_div p hn]

/-- What becomes of a name that is no link, when it is opened as a file. -/
theorem openFile_eq (mode : Nat) (keep : Bool)
    (nolink : ∀ t, v.lookup (Bytes.ofText n :: e) ≠ some (.link t)) :
    v.openFile cwd (p / n) mode keep = match v.lookup (Bytes.ofText n :: e) with
      | none => .ok (Bytes.ofText n :: e, v.put (Bytes.ofText n :: e) (.file ⟨[], mode, none⟩))
      | some (.file _) => .ok (Bytes.ofText n :: e,
          if keep then v else v.adjust (Bytes.ofText n :: e) ({ · with bytes := [] }))
      | some _ => .error SystemError.isDirectory := by
  unfold openFile reachFile
  rw [Path.endsInSlash_div p hn, reach_div hn hc hl h fun _ => nolink]
  simp only [bind, Except.bind, Bool.false_eq_true, if_false]
  cases hx : v.lookup (Bytes.ofText n :: e) with
  | none => rfl
  | some x =>
    cases x with
    | dir => rfl
    | file f => rfl
    | link t => exact absurd hx (nolink t)

theorem openFile_new (mode : Nat) (keep : Bool) (hx : v.lookup (Bytes.ofText n :: e) = none) :
    v.openFile cwd (p / n) mode keep =
      .ok (Bytes.ofText n :: e, v.put (Bytes.ofText n :: e) (.file ⟨[], mode, none⟩)) := by
  rw [openFile_eq hn hc hl h mode keep (by simp [hx]), hx]

end At

/-- A directory can be moved to a free name beside it. -/
theorem rename_new {m : String} (hm : IsName (Bytes.ofText m)) (hne : n ≠ m)
    (hc : checkPath (p / n) = .ok ()) (hl : (Bytes.ofText n).length ≤ nameLimit)
    (hc' : checkPath (p / m) = .ok ()) (hl' : (Bytes.ofText m).length ≤ nameLimit)
    (h : Opens v cwd p e) (hd : v.lookup (Bytes.ofText n :: e) = some .dir)
    (hf : v.lookup (Bytes.ofText m :: e) = none) :
    v.rename cwd (p / n) (p / m) =
      .ok (v.relocate (Bytes.ofText n :: e) (Bytes.ofText m :: e)) := by
  have hne : Bytes.ofText n ≠ Bytes.ofText m := fun g => hne (Bytes.ofText_inj.1 g)
  have up : ¬ Below (Bytes.ofText m :: e) (Bytes.ofText n :: e) :=
    not_below_of_ne hne.symm (below_refl _)
  have down : ¬ Below (Bytes.ofText n :: e) (Bytes.ofText m :: e) :=
    not_below_of_ne hne (below_refl _)
  unfold rename
  rw [reachName_eq hn hc hl h, reachName_eq hm hc' hl' h]
  simp [bind, Except.bind, hd, hf, hne, up, down]

theorem rename_missing {m : String} (hm : IsName (Bytes.ofText m))
    (hc : checkPath (p / n) = .ok ()) (hl : (Bytes.ofText n).length ≤ nameLimit)
    (hc' : checkPath (p / m) = .ok ()) (hl' : (Bytes.ofText m).length ≤ nameLimit)
    (h : Opens v cwd p e) (hn : v.lookup (Bytes.ofText n :: e) = none) :
    v.rename cwd (p / n) (p / m) = .error (.system .noEntry) := by
  unfold rename
  rw [reachName_eq ‹_› hc hl h, reachName_eq hm hc' hl' h]
  simp only [bind, Except.bind, hn]

theorem stat_eq {x : Entry} (hc : checkPath (p / n) = .ok ())
    (hl : (Bytes.ofText n).length ≤ nameLimit) (h : Opens v cwd p e)
    (hx : v.lookup (Bytes.ofText n :: e) = some x) (ht : ∀ t, x ≠ .link t) :
    v.stat cwd (p / n) = .ok (Bytes.ofText n :: e, x) := by
  refine stat_ok.2 ⟨_, reach_div hn hc hl h ?_, rfl, hx⟩
  intro _ t g
  rw [hx] at g
  cases g
  exact ht t rfl

end Name

end PinnedDeps.Volume
