import PinnedDeps.Proofs.Action.Run
import PinnedDeps.Proofs.Ancestors
import PinnedDeps.Proofs.Volume.Outcome

/-!
Making a directory with what is missing above it. `Way` says where a path leads as far as it leads,
and which names at its end may be missing; along a way, making the directory always succeeds.
-/
namespace PinnedDeps.Volume

open Bytes (dot)

variable {v u : Volume} {cwd base : Location} {p q : Path} {names x y : List Bytes} {s : Bytes}
  {n : Nat}

/-- The path leads to `base`; of the names that come after it, each is a directory or missing. -/
structure Way (v : Volume) (cwd : Location) (p : Path) (base : Location) (names : List Bytes) :
    Prop where
  usable : checkPath p = .ok ()
  leads : ∃ n pre, n ≤ maxLinks ∧ p.steps = pre ++ names ∧
    Leads v n (startOf cwd p.bytes) pre base
  there : v.lookup base = some .dir
  steps : ∀ s ∈ names, IsStep s
  free : ∀ l, Below (names.reverse ++ base) l → Inside l base →
    v.lookup l = none ∨ v.lookup l = some .dir
  ends : names ≠ [] → p.segments.getLast? ≠ some [dot]

theorem opens_steps {e : Location} :
    Opens v cwd p e ↔ ∃ n, n ≤ maxLinks ∧ Leads v n (startOf cwd p.bytes) p.steps e := by
  have same : p.segments.filter (· ≠ [dot]) = p.steps.filter (· ≠ [dot]) := by
    simp [Path.steps]
  constructor
  · rintro ⟨n, hn, h⟩
    exact ⟨n, hn, h.redot same⟩
  · rintro ⟨n, hn, h⟩
    exact ⟨n, hn, h.redot same.symm⟩

/-- The last step of a path is its last segment, if that is no dot. -/
theorem segments_of_steps (hq : q.steps = x ++ [s]) (hlast : q.segments.getLast? ≠ some [dot]) :
    ∃ a, q.segments = a ++ [s] ∧ a.filter (· ≠ [dot]) = x := by
  obtain ⟨a, b, hab, ha, hb⟩ := List.filter_eq_append_iff.1 hq
  obtain ⟨b₁, b₂, rfl, h₁, _, h₂⟩ := List.filter_eq_cons_iff.1 hb
  have dots : ∀ z ∈ b₂, z = [dot] := by
    intro z hz
    simpa using List.filter_eq_nil_iff.1 h₂ z hz
  have : b₂ = [] := by
    by_cases hne : b₂ = []
    · exact hne
    · refine absurd ?_ hlast
      have joined : a ++ (b₁ ++ s :: b₂) = (a ++ (b₁ ++ [s])) ++ b₂ := by simp
      rw [hab, joined, List.getLast?_append, List.getLast?_eq_some_getLast hne, Option.some_or,
        dots _ (List.getLast_mem hne)]
  subst this
  refine ⟨a ++ b₁, by rw [hab, List.append_assoc], ?_⟩
  rw [List.filter_append, ha, List.filter_eq_nil_iff.2 h₁, List.append_nil]

/-- A path is followed to its last name from where its other steps lead. -/
theorem reachName_step {d : Location} (hc : checkPath q = .ok ()) (hs : IsStep s)
    (hq : q.steps = x ++ [s]) (hlast : q.segments.getLast? ≠ some [dot]) (hn : n ≤ maxLinks)
    (h : Leads v n (startOf cwd q.bytes) x d) : reachName v cwd q = .ok (.name d s) := by
  obtain ⟨a, ha, hx⟩ := segments_of_steps hq hlast
  have parts : x.filter (· ≠ [dot]) = a.filter (· ≠ [dot]) := by
    rw [← hx]
    simp
  refine reachName_ok.2 ⟨hc, ?_⟩
  rw [ha]
  exact (h.redot parts).passage hn (by simp) (.stop hs (by simp))

/-- Where a step is missing before the last one, nothing can be made. -/
theorem reachName_missing {d : Location} (hc : checkPath q = .ok ()) (hs : IsStep s)
    (hq : q.steps = x ++ s :: y) (hy : y ≠ []) (hn : n ≤ maxLinks)
    (h : Leads v n (startOf cwd q.bytes) x d) (hmiss : v.lookup (s :: d) = none) :
    reachName v cwd q = .error SystemError.noEntry := by
  obtain ⟨a, b, hab, ha, hb⟩ := List.filter_eq_append_iff.1 hq
  obtain ⟨b₁, b₂, rfl, h₁, _, h₂⟩ := List.filter_eq_cons_iff.1 hb
  have hne : b₂ ≠ [] := by
    rintro rfl
    exact hy h₂.symm
  have parts : x.filter (· ≠ [dot]) = (a ++ b₁).filter (· ≠ [dot]) := by
    rw [List.filter_append, List.filter_eq_nil_iff.2 h₁, ha, List.append_nil, ← ha]
    simp
  have walked : walk v false maxLinks (startOf cwd q.bytes) q.segments = .error .noEntry := by
    rw [hab, ← List.append_assoc]
    exact ((h.redot parts).passage hn (by simp) (.missing hs hmiss hne)).eq_walk
  unfold reachName
  rw [hc, walked]
  rfl

/-- A path above `p`, or `p` itself, that can be looked up and ends in the last of its steps. -/
structure CutAt (p : Path) (k : Nat) (q : Path) : Prop where
  usable : checkPath q = .ok ()
  steps : q.steps = p.steps.take k
  start : ∀ d, startOf d q.bytes = startOf d p.bytes
  last : q.segments.getLast? ≠ some [dot]
  above : q.bytes ≠ [] ∧ q.parent? ≠ none

theorem cutAt_cut {k : Nat} (hc : checkPath p = .ok ()) (hp : p.steps ≠ [])
    (hlast : p.segments.getLast? ≠ some [dot]) (hk : 0 < k) :
    CutAt p k (p.cut k) := by
  unfold Path.cut
  split
  · rename_i h
    exact ⟨hc, by rw [h, List.take_length], fun _ => rfl, hlast, Path.parent_ne_none hp⟩
  · have hne := Path.steps_upTo_ne_nil hp hk
    refine ⟨Path.checkPath_upTo hp hk hc, Path.steps_upTo p k, Path.start_upTo p k, ?_,
      Path.parent_ne_none hne⟩
    have hseg : ∃ a, (p.upTo k).segments = a ++ p.steps.take k := by
      rw [Path.upTo_eq]
      exact ⟨_, Path.segments_extend (fun s hs => Path.isPart_of_mem_take hs) _⟩
    obtain ⟨a, ha⟩ := hseg
    rw [Path.steps_upTo] at hne
    rw [ha, List.getLast?_append, List.getLast?_eq_some_getLast hne, Option.some_or]
    intro h
    have hmem := List.getLast_mem hne
    rw [Option.some.inj h] at hmem
    exact (Path.isPart_of_mem_take hmem).notDot rfl

/-- A path that leads to a directory is refused by a making of it. -/
theorem makeDir_exists {e : Location} (hc : checkPath q = .ok ()) (h : Opens v cwd q e)
    (he : v.lookup e = some .dir) :
    v.makeDir cwd q = .error (.system .alreadyExists) ∧ v.leadsToDir cwd q = true := by
  obtain ⟨n, hn, h⟩ := h
  constructor
  · obtain ⟨L, hL, hsome⟩ := h.named hn
    have : reachName v cwd q = .ok L := reachName_ok.2 ⟨hc, hL⟩
    unfold makeDir
    rw [this]
    cases L with
    | place l => rfl
    | name d s =>
      show (if (v.lookup (s :: d)).isSome then _ else _) = _
      rw [if_pos (hsome d s rfl)]
  · have strides : ∃ parts, Volume.strides q.bytes = parts ∧
        Leads v n (startOf cwd q.bytes) parts e := by
      cases hq : q.endsInSlash with
      | false => exact ⟨_, Path.strides_eq hq, h⟩
      | true => exact ⟨_, Path.strides_of_slash hq, h.append (.stay .done)⟩
    obtain ⟨parts, hparts, h⟩ := strides
    obtain ⟨L, hL, rfl⟩ := h.ends hn
    have : v.stat cwd q = .ok (L.location, .dir) :=
      stat_ok.2 ⟨L, reach_ok.2 ⟨hc, hparts ▸ hL⟩, rfl, he⟩
    unfold leadsToDir
    rw [this]

/-- A directory that has been made is where its path leads. -/
theorem makeDir_opens {d : Location} (h : reachName v cwd q = .ok (.name d s))
    (hn : v.lookup (s :: d) = none) : Opens (v.put (s :: d) .dir) cwd q (s :: d) := by
  have here : (v.put (s :: d) .dir).lookup (s :: d) = some .dir :=
    (lookup_put v _ _ (by simp)).trans (if_pos rfl)
  have kept := (reachName_ok.1 h).2.keep (keeps_put .dir hn) (by simp)
  obtain ⟨k, hk, leads⟩ := kept.leads_of_dir here
  exact ⟨k, hk, leads⟩

/-- Everything stands as before, but for new directories above or at `top`. -/
def Paved (top : Location) (v u : Volume) : Prop :=
  ∀ l, u.lookup l = v.lookup l ∨ v.lookup l = none ∧ u.lookup l = some .dir ∧ Below top l

theorem Paved.refl (top : Location) (v : Volume) : Paved top v v := Laid.refl _ v

theorem Paved.trans {top : Location} (u v x : Volume) (h : Paved top u v) (g : Paved top v x) :
    Paved top u x := Laid.trans u v x h g

theorem Paved.keeps {top : Location} (h : Paved top v u) : Keeps v u := Laid.keeps h

theorem paved_put {top l : Location} (hl : Below top l) (h : v.lookup l = none) :
    Paved top v (v.put l .dir) := laid_put hl h

theorem Way.paved (h : Way v cwd p base names) (g : Paved (names.reverse ++ base) v u) :
    Way u cwd p base names := by
  obtain ⟨n, pre, hn, hp, hl⟩ := h.leads
  refine ⟨h.usable, ⟨n, pre, hn, hp, hl.keep g.keeps⟩, ?_, h.steps, fun l hb hi => ?_, h.ends⟩
  · exact g.keeps _ _ h.there (by simp)
  · rcases g l with e | ⟨_, e, _⟩
    · rw [e]
      exact h.free l hb hi
    · exact .inr e

/-- Where the next name is a directory, the way goes on from there. -/
theorem Way.descend (h : Way v cwd p base (s :: names)) (hd : v.lookup (s :: base) = some .dir) :
    Way v cwd p (s :: base) names := by
  obtain ⟨n, pre, hn, hp, hl⟩ := h.leads
  have hs : IsStep s := h.steps s (by simp)
  refine ⟨h.usable, ⟨n + 0, pre ++ [s], hn, by rw [hp]; simp, hl.append (.enter hs hd .done)⟩, hd,
    fun x hx => h.steps x (by simp [hx]), fun l hb hi => ?_, fun _ => h.ends (by simp)⟩
  refine h.free l (by simpa using hb) ⟨hi.1.trans (below_cons s base), ?_⟩
  rintro rfl
  exact not_below_cons s l hi.1

theorem Way.top_below (s : Bytes) (names : List Bytes) (base : Location) :
    Below ((s :: names).reverse ++ base) (s :: base) := by
  rw [List.reverse_cons, List.append_assoc]
  exact below_append _ _

theorem Way.opens (h : Way v cwd p base []) : Opens v cwd p base := by
  obtain ⟨n, pre, hn, hp, hl⟩ := h.leads
  rw [List.append_nil] at hp
  exact opens_steps.2 ⟨n, hn, hp ▸ hl⟩

/-- Where the path leads to a directory, it leads along the way to its end. -/
theorem Way.opened {e : Location} (h : Way v cwd p base names) (g : Opens v cwd p e) :
    e = names.reverse ++ base ∧
      ∀ l, Below (names.reverse ++ base) l → Inside l base → v.lookup l = some .dir := by
  induction names generalizing base with
  | nil =>
    refine ⟨g.unique h.opens, fun l hb hi => ?_⟩
    exact absurd (hi.1.antisymm hb) hi.2
  | cons s r ih =>
    have hdir : v.lookup (s :: base) = some .dir := by
      rcases h.free (s :: base) (Way.top_below s r base) (inside_cons s base) with hn | hd
      · obtain ⟨n, pre, _, hp, hl⟩ := h.leads
        obtain ⟨m, _, g⟩ := opens_steps.1 g
        rw [hp] at g
        obtain ⟨_, _, d, _, g₁, g₂⟩ := g.split
        obtain ⟨_, rfl⟩ := g₁.unique hl
        have hs : IsStep s := h.steps s (by simp)
        cases g₂ with
        | stay => exact absurd rfl hs.notDot
        | up => exact absurd rfl hs.notUp
        | enter _ hd _ => exact hd
        | follow _ ht _ =>
          rw [hn] at ht
          cases ht
      · exact hd
    obtain ⟨he, hdirs⟩ := ih (h.descend hdir)
    rw [show (s :: r).reverse ++ base = r.reverse ++ (s :: base) by simp]
    refine ⟨he, fun l hb hi => ?_⟩
    by_cases hl : l = s :: base
    · rw [hl, hdir]
    · refine hdirs l hb ⟨?_, hl⟩
      rcases hb.total (below_append r.reverse (s :: base)) with g | g
      · exact g
      · rcases below_cons_iff.1 g with g | g
        · exact absurd g hl
        · exact absurd (hi.1.antisymm g) hi.2

/-- A way on which nothing is missing leads to its end. -/
theorem Way.laid (h : Way v cwd p base names)
    (hl : ∀ l, Below (names.reverse ++ base) l → Inside l base → v.lookup l = some .dir) :
    Way v cwd p (names.reverse ++ base) [] := by
  induction names generalizing base with
  | nil => exact h
  | cons s r ih =>
    have hdir := hl (s :: base) (Way.top_below s r base) (inside_cons s base)
    rw [show (s :: r).reverse ++ base = r.reverse ++ (s :: base) by simp] at hl ⊢
    refine ih (h.descend hdir) fun l hb hi => hl l hb ⟨hi.1.trans (below_cons s base), ?_⟩
    rintro rfl
    exact not_below_cons s l hi.1

/-- The next missing name of a way can be made. -/
theorem Way.makeDir_next {k : Nat} (h : Way v cwd p base (s :: names))
    (hq : CutAt p k q) (hk : q.steps ++ names = p.steps) (hn : v.lookup (s :: base) = none) :
    v.makeDir cwd q = .ok (v.put (s :: base) .dir) := by
  obtain ⟨n, pre, hle, hp, hl⟩ := h.leads
  have hpre : q.steps = pre ++ [s] := by
    rw [hp, List.append_cons] at hk
    exact List.append_cancel_right hk
  have := reachName_step (v := v) hq.usable (h.steps s (by simp)) hpre hq.last hle
    (hq.start cwd ▸ hl)
  unfold makeDir
  rw [this]
  show (if (v.lookup (s :: base)).isSome then _ else _) = _
  rw [hn]
  rfl

theorem Way.paved_next (h : Way v cwd p base (s :: names)) (hn : v.lookup (s :: base) = none) :
    Paved ((s :: names).reverse ++ base) v (v.put (s :: base) .dir) ∧
      Way (v.put (s :: base) .dir) cwd p (s :: base) names := by
  have paved : Paved ((s :: names).reverse ++ base) v (v.put (s :: base) .dir) :=
    paved_put (Way.top_below s names base) hn
  exact ⟨paved, (h.paved paved).descend (by rw [lookup_put _ _ _ (by simp), if_pos rfl])⟩

/-- What comes after a missing name of a way cannot be made. -/
theorem Way.makeDir_later {k : Nat} (h : Way v cwd p base (s :: names)) (hq : CutAt p k q)
    (hk : q.steps ++ y = p.steps) (hy : y.length < names.length)
    (hn : v.lookup (s :: base) = none) : v.makeDir cwd q = .error (.system .noEntry) := by
  obtain ⟨n, pre, hle, hp, hl⟩ := h.leads
  obtain ⟨r, hr, hne⟩ : ∃ r, q.steps = pre ++ s :: r ∧ r ≠ [] := by
    rw [hp] at hk
    rcases List.append_eq_append_iff.1 hk with ⟨a, ha, hb⟩ | ⟨a, ha, hb⟩
    · have := congrArg List.length hb
      simp at this
      omega
    · cases a with
      | nil =>
        have := congrArg List.length hb
        simp at this
        omega
      | cons b r =>
        rw [List.cons_append] at hb
        obtain ⟨rfl, hb⟩ := List.cons.inj hb
        refine ⟨r, ha, ?_⟩
        rintro rfl
        have := congrArg List.length hb
        simp at this
        omega
  have := reachName_missing (v := v) hq.usable (h.steps s (by simp)) hr hne hle
    (hq.start cwd ▸ hl) hn
  unfold makeDir
  rw [this]
  rfl

end PinnedDeps.Volume

namespace PinnedDeps.Action

open Volume

variable {o : Machine} {w w' : World} {p q : Path} {qs more missing : List Path}

theorem run_ensureMade (q : Path) : (ensureMade q).run o w = match w.volume.makeDir w.cwd q with
    | .ok v => (.ok (), w.set v)
    | .error e => (if e = .system .alreadyExists ∧ w.volume.leadsToDir w.cwd q then .ok () else .error e, w) := by
  unfold ensureMade
  rw [run_tryCatch, run_change]
  cases w.volume.makeDir w.cwd q with
  | ok v => rfl
  | error e =>
    simp only
    rw [run_bind, run_look]
    simp only
    split <;> rfl

/-- One step of the search for the nearest directory. -/
theorem run_makeNearest_cons (q : Path) (above missing : List Path) :
    (makeNearest (q :: above) missing).run o w =
      if q.bytes = [] ∨ q.parent? = none then (.ok missing, w) else
        match w.volume.makeDir w.cwd q with
        | .ok v => (.ok missing, w.set v)
        | .error e =>
          if e = .system .noEntry then (makeNearest above (q :: missing)).run o w
          else if e = .system .alreadyExists ∧ w.volume.leadsToDir w.cwd q then (.ok missing, w)
          else (.error e, w) := by
  rw [makeNearest]
  split
  · rfl
  rw [run_bind, run_tryCatch, run_bind, run_change]
  cases w.volume.makeDir w.cwd q with
  | ok v => rfl
  | error e =>
    simp only
    by_cases missed : e = .system .noEntry
    · simp only [if_pos missed]
      rfl
    · simp only [if_neg missed]
      rw [run_bind, run_look]
      simp only
      by_cases there : e = .system .alreadyExists ∧ w.volume.leadsToDir w.cwd q
      · simp only [if_pos there]
        rfl
      · simp only [if_neg there]
        rfl

/-- The search for the nearest directory passes over the paths that have nothing above them. -/
theorem run_makeNearest (hqs : ∀ q ∈ qs, q.bytes ≠ [] ∧ q.parent? ≠ none ∧
      w.volume.makeDir w.cwd q = .error (.system .noEntry))
    (hq : q.bytes ≠ [] ∧ q.parent? ≠ none) {v : Volume} (hv : w.volume.makeDir w.cwd q = .ok v) :
    (makeNearest (qs ++ q :: more) missing).run o w = (.ok (qs.reverse ++ missing), w.set v) := by
  induction qs generalizing missing with
  | nil =>
    rw [List.nil_append, run_makeNearest_cons, if_neg (by simp [hq]), hv]
    rfl
  | cons x xs ih =>
    obtain ⟨hb, hp, hx⟩ := hqs x (by simp)
    have rest : (makeNearest (xs ++ q :: more) (x :: missing)).run o w =
        (.ok (xs.reverse ++ x :: missing), w.set v) := ih fun z hz => hqs z (by simp [hz])
    rw [List.cons_append, run_makeNearest_cons, if_neg (by simp [hb, hp]), hx]
    simp only [if_true]
    rw [rest, List.reverse_cons, List.append_assoc]
    rfl

theorem run_makeNearest_exists (hq : q.bytes ≠ [] ∧ q.parent? ≠ none)
    (h : w.volume.makeDir w.cwd q = .error (.system .alreadyExists) ∧
      w.volume.leadsToDir w.cwd q = true) :
    (makeNearest (q :: more) missing).run o w = (.ok missing, w) := by
  rw [run_makeNearest_cons, if_neg (by simp [hq]), h.1]
  simp only
  rw [if_neg (by decide), if_pos ⟨trivial, h.2⟩]

theorem run_ensureMade_new {v : Volume} (h : w.volume.makeDir w.cwd q = .ok v) :
    (ensureMade q).run o w = (.ok (), w.set v) := by
  rw [run_ensureMade, h]

theorem run_ensureMade_exists (h : w.volume.makeDir w.cwd q = .error (.system .alreadyExists) ∧
      w.volume.leadsToDir w.cwd q = true) : (ensureMade q).run o w = (.ok (), w) := by
  rw [run_ensureMade, h.1]
  simp [h.2]

/-- A directory with nothing above it is not made. -/
theorem run_ensureDir_top (h : p.bytes = [] ∨ p.parent? = none) :
    (ensureDir p).run o w = (.ok (), w) := by
  obtain ⟨more, hmore⟩ : ∃ more, p.ancestors = p :: more := ⟨_, rfl⟩
  unfold ensureDir
  rw [hmore, run_bind, run_makeNearest_cons, if_pos h]
  rfl

/-- Where the path leads to a directory, none is made. -/
theorem run_ensureDir_there {e : Location} (hc : checkPath p = .ok ())
    (h : Opens w.volume w.cwd p e) (he : w.volume.lookup e = some .dir) :
    (ensureDir p).run o w = (.ok (), w) := by
  by_cases top : p.bytes = [] ∨ p.parent? = none
  · exact run_ensureDir_top top
  obtain ⟨more, hmore⟩ : ∃ more, p.ancestors = p :: more := ⟨_, rfl⟩
  unfold ensureDir
  rw [hmore, run_bind_of_ok (run_makeNearest_exists (not_or.1 top) (makeDir_exists hc h he))]
  rfl

section Way

variable {base : Location} {names : List Bytes} {s : Bytes}

/-- One more name of a way, made or found. -/
theorem run_ensureMade_way {k : Nat} (h : Way w.volume w.cwd p base (s :: names))
    (hq : CutAt p k q) (hk : q.steps ++ names = p.steps) :
    ∃ w', (ensureMade q).run o w = (.ok (), w') ∧
      Moved (Paved ((s :: names).reverse ++ base)) w w' ∧
      Way w'.volume w'.cwd p (s :: base) names := by
  have hfree := h.free (s :: base) (Way.top_below s names base) (inside_cons s base)
  rcases hfree with hn | hd
  · obtain ⟨paved, way⟩ := h.paved_next hn
    exact ⟨_, run_ensureMade_new (h.makeDir_next hq hk hn), .set paved, way⟩
  · have down := h.descend hd
    obtain ⟨n, pre, hn, hp, hl⟩ := down.leads
    have hpre : q.steps = pre := by
      rw [hp] at hk
      exact List.append_cancel_right hk
    have opens : Opens w.volume w.cwd q (s :: base) :=
      opens_steps.2 ⟨n, hn, by rw [hq.start, hpre]; exact hl⟩
    exact ⟨w, run_ensureMade_exists (makeDir_exists hq.usable opens hd),
      .refl (Paved.refl _) w, down⟩

/-- The rest of the names of a way, from above. -/
theorem run_ensureMades {k : Nat} (hk : k + names.length = p.steps.length)
    (h : Way w.volume w.cwd p base names) :
    ∃ w', ((p.cuts k names.length).forM ensureMade).run o w = (.ok (), w') ∧
      Moved (Paved (names.reverse ++ base)) w w' ∧
      Way w'.volume w'.cwd p (names.reverse ++ base) [] := by
  induction names generalizing w base k with
  | nil => exact ⟨w, rfl, .refl (Paved.refl _) w, h⟩
  | cons s r ih =>
    rw [List.length_cons] at hk
    have hne : p.steps ≠ [] := by
      intro g
      rw [g, List.length_nil] at hk
      omega
    have cut : CutAt p (k + 1) (p.cut (k + 1)) :=
      cutAt_cut h.usable hne (h.ends (by simp)) (by omega)
    have joined : (p.cut (k + 1)).steps ++ r = p.steps := by
      obtain ⟨n, pre, _, hp, _⟩ := h.leads
      have hpre : pre.length = k := by
        have := congrArg List.length hp
        simp only [List.length_append, List.length_cons] at this
        omega
      rw [cut.steps, hp, ← hpre, List.take_length_add_append]
      simp
    obtain ⟨w₁, hrun, moved, way⟩ := run_ensureMade_way (o := o) h cut joined
    obtain ⟨w', hrun', moved', way'⟩ := ih (k := k + 1) (by omega) way
    rw [show (s :: r).reverse ++ base = r.reverse ++ (s :: base) by simp] at moved ⊢
    refine ⟨w', ?_, moved.trans Paved.trans moved', way'⟩
    rw [List.length_cons, Path.cuts_succ, forM_cons, run_bind_of_ok hrun, hrun']

/-- At the end of a way, the search for the nearest directory finds the path itself. -/
theorem run_makeNearest_there (h : Way w.volume w.cwd p base []) :
    (makeNearest p.ancestors []).run o w = (.ok [], w) := by
  obtain ⟨more, hmore⟩ : ∃ more, p.ancestors = p :: more := ⟨_, rfl⟩
  rw [hmore]
  by_cases hp : p.bytes = [] ∨ p.parent? = none
  · rw [makeNearest, if_pos hp]
    rfl
  · exact run_makeNearest_exists (by simpa using hp) (makeDir_exists h.usable h.opens h.there)

/-- Where the next name of a way is missing, the search for the nearest directory makes it, and
leaves the names after it. -/
theorem run_makeNearest_way (h : Way w.volume w.cwd p base (s :: names))
    (hn : w.volume.lookup (s :: base) = none) :
    ∃ k, k + names.length = p.steps.length ∧ (makeNearest p.ancestors []).run o w =
      (.ok (p.cuts k names.length), w.set (w.volume.put (s :: base) .dir)) := by
  obtain ⟨n, pre, hle, hp, hl⟩ := h.leads
  have hlen : p.steps.length = pre.length + (1 + names.length) := by
    rw [hp]
    simp
    omega
  have hne : p.steps ≠ [] := by
    rw [hp]
    simp
  have cut : ∀ k, 0 < k → CutAt p k (p.cut k) := fun k hk =>
    cutAt_cut h.usable hne (h.ends (by simp)) hk
  have here := cut (pre.length + 1) (by omega)
  have next : (p.cut (pre.length + 1)).steps ++ names = p.steps := by
    rw [here.steps, hp, List.take_length_add_append]
    simp
  obtain ⟨more, hmore⟩ := Path.ancestors_cuts hne
  have ancestors : p.ancestors = (p.cuts (pre.length + 1) names.length).reverse ++
      p.cut (pre.length + 1) :: ((p.cuts 0 pre.length).reverse ++ more) := by
    rw [hmore, hlen, Path.cuts_add, Nat.zero_add, Nat.add_comm 1, Path.cuts_succ]
    simp
  have later : ∀ q ∈ (p.cuts (pre.length + 1) names.length).reverse,
      q.bytes ≠ [] ∧ q.parent? ≠ none ∧
        w.volume.makeDir w.cwd q = .error (.system .noEntry) := by
    intro q hq
    obtain ⟨i, hi, rfl⟩ := List.mem_map.1 (List.mem_reverse.1 hq)
    have hi := List.mem_range.1 hi
    have at_i := cut (pre.length + 1 + 1 + i) (by omega)
    have split : (p.cut (pre.length + 1 + 1 + i)).steps ++
        p.steps.drop (pre.length + 1 + 1 + i) = p.steps := by
      rw [at_i.steps, List.take_append_drop]
    refine ⟨at_i.above.1, at_i.above.2, h.makeDir_later at_i split ?_ hn⟩
    rw [List.length_drop]
    omega
  refine ⟨pre.length + 1, by omega, ?_⟩
  rw [ancestors, run_makeNearest later here.above (h.makeDir_next here next hn),
    List.reverse_reverse, List.append_nil]

/-- Along a way, the directory is made with whatever is missing above it. -/
theorem run_ensureDir (h : Way w.volume w.cwd p base names) :
    ∃ w', (ensureDir p).run o w = (.ok (), w') ∧ Moved (Paved (names.reverse ++ base)) w w' ∧
      Way w'.volume w'.cwd p (names.reverse ++ base) [] := by
  unfold ensureDir
  induction names generalizing base with
  | nil =>
    refine ⟨w, ?_, .refl (Paved.refl _) w, h⟩
    rw [run_bind_of_ok (run_makeNearest_there h)]
    rfl
  | cons s r ih =>
    rw [show (s :: r).reverse ++ base = r.reverse ++ (s :: base) by simp]
    have hfree := h.free (s :: base) (Way.top_below s r base) (inside_cons s base)
    rcases hfree with hn | hd
    · obtain ⟨k, hk, first⟩ := run_makeNearest_way (o := o) h hn
      obtain ⟨paved, way⟩ := h.paved_next hn
      obtain ⟨w', hrun, moved, way'⟩ := run_ensureMades (o := o)
        (w := w.set (w.volume.put (s :: base) .dir)) hk way
      rw [show (s :: r).reverse ++ base = r.reverse ++ (s :: base) by simp] at paved
      refine ⟨w', ?_, (Moved.set paved).trans Paved.trans moved, way'⟩
      rw [run_bind_of_ok first, hrun]
    · exact ih (h.descend hd)

end Way

end PinnedDeps.Action
