import PinnedDeps.Proofs.Action.Making
import PinnedDeps.Proofs.Action.Parents

/-!
Paths on which no step leads up and no link stands. Where they lead can be read off them, and so can
the directories that are made along them.
-/
namespace PinnedDeps

open Bytes (dot)

namespace Path

variable {p q : Path}

/-- The place that the steps of a path name, if all of them lead down. -/
def place (p : Path) (cwd : Location) : Location := p.steps.reverse ++ Volume.startOf cwd p.bytes

def Descends (p : Path) : Prop := [dot, dot] ∉ p.steps

instance (p : Path) : Decidable p.Descends := inferInstanceAs (Decidable (¬ _))

theorem ancestors_start (h : q ∈ p.ancestors) (d : Location) :
    Volume.startOf d q.bytes = Volume.startOf d p.bytes := by
  rcases List.mem_cons.1 h with rfl | h
  · rfl
  obtain ⟨i, hi, rfl⟩ := List.mem_map.1 h
  have hi := List.mem_range.1 hi
  generalize hk : p.components.length - 1 - i = k
  have kept : ∀ k, ofComponents (p.lead ++ (p.steps.map componentOfSegment).take k) = p.upTo k := by
    intro k
    rw [← List.map_take]
    rfl
  by_cases short : k < p.lead.length
  · -- Nothing but the leading dot is cut away, since the root stays.
    have relative : p.isAbsolute = false := by
      rcases lead_cases p with ⟨absolute, hl, _⟩ | ⟨relative, _⟩ | ⟨relative, _⟩
      · simp only [components_eq, hl, List.length_cons, List.length_nil, List.length_drop,
          List.head?_cons, List.cons_append, List.nil_append, if_true] at hi hk short
        omega
      · exact relative
      · exact relative
    have start : p.bytes.head? ≠ some Bytes.slash := by simpa [isAbsolute] using relative
    have none : k = 0 := by
      rcases lead_cases p with ⟨_, hl, _⟩ | ⟨_, _, hl, _⟩ | ⟨_, hl, _⟩ <;>
        simp only [hl, List.length_cons, List.length_nil] at short <;> omega
    rw [none, List.take_zero]
    unfold Volume.startOf
    rw [if_neg start]
    rfl
  · rw [components_eq, List.take_append, List.take_of_length_le (by omega), kept, start_upTo]

/-- The paths above a path name the places above its own. -/
theorem ancestors_place (h : q ∈ p.ancestors) (cwd : Location) :
    Volume.Below (p.place cwd) (q.place cwd) ∧ (p.Descends → q.Descends) := by
  obtain ⟨k, hk⟩ := steps_of_mem_ancestors h
  unfold place Descends
  rw [ancestors_start h, hk]
  constructor
  · refine Volume.below_iff.2 ⟨(p.steps.drop k).reverse, ?_⟩
    rw [← List.append_assoc, ← List.reverse_append, List.take_append_drop]
  · exact fun down up => down (List.mem_of_mem_take up)

theorem place_div {n : String} (hn : IsName (Bytes.ofText n)) (cwd : Location) :
    (p / n).place cwd = Bytes.ofText n :: p.place cwd := by
  unfold place
  rw [steps_div p hn, start_div p hn, List.reverse_append]
  rfl

theorem descends_div {n : String} (hn : IsName (Bytes.ofText n)) (h : p.Descends) :
    (p / n).Descends := by
  unfold Descends
  rw [steps_div p hn, List.mem_append, List.mem_singleton]
  rintro (up | up)
  · exact h up
  · exact hn.notUp up.symm

theorem steps_join (h : q.isAbsolute = false) : (p.join q).steps = p.steps ++ q.steps := by
  have relative : q.bytes.head? ≠ some Bytes.slash := by simpa [isAbsolute] using h
  unfold steps
  rw [segments_join relative, List.filter_append]

theorem descends_join (h : q.isAbsolute = false) (hp : p.Descends) (hq : q.Descends) :
    (p.join q).Descends := by
  unfold Descends
  rw [steps_join h, List.mem_append]
  exact not_or.2 ⟨hp, hq⟩

theorem place_join (h : q.isAbsolute = false) (cwd : Location) :
    (p.join q).place cwd = q.steps.reverse ++ p.place cwd := by
  have relative : q.bytes.head? ≠ some Bytes.slash := by simpa [isAbsolute] using h
  unfold place
  rw [steps_join h, head_join relative, List.reverse_append, List.append_assoc]

end Path

namespace Volume

variable {v u : Volume} {m : Nat} {cwd d e l k top : Location} {n : Bytes} {parts : List Bytes}
  {p : Path}

/-- No link stands at a place or above it. -/
def Linkless (top : Location) (v : Volume) : Prop :=
  ∀ l t, Below top l → v.lookup l ≠ some (.link t)

theorem Linkless.above (h : Linkless top v) (hb : Below top l) : Linkless l v :=
  fun j t hj => h j t (hb.trans hj)

theorem Linkless.paved (h : Linkless l v) (g : Paved top v u) : Linkless l u := by
  intro j t hj hlink
  rcases g j with same | ⟨_, dir, _⟩
  · exact h j t hj (same.symm.trans hlink)
  · rw [dir] at hlink
    cases hlink

def linkFree (v : Volume) : Bool :=
  v.entries.all fun
    | (_, .link _) => false
    | _ => true

theorem linkless_of_linkFree (h : linkFree v = true) (l : Location) :
    Linkless l v := by
  intro j t _ hlink
  have hj : j ≠ [] := by
    rintro rfl
    cases hlink
  rw [lookup_eq v hj] at hlink
  obtain ⟨before, after, entries, _⟩ := List.lookup_eq_some_iff.1 hlink
  have free := List.all_eq_true.1 h (j, .link t) (by simp [entries])
  cases free

theorem below_tail (l : Location) : Below l l.tail := List.tail_suffix l

theorem Below.tail (h : Below l k) : Below l.tail k.tail := by
  obtain ⟨r, rfl⟩ := below_iff.1 h
  cases r with
  | nil => exact below_refl _
  | cons s r =>
    refine (below_append r k).trans ?_
    cases k with
    | nil => exact below_refl _
    | cons s k => exact below_cons s k

/-- A way into a tree leads through the directory at its root. -/
theorem Leads.entered (h : Leads v m d parts e) (below : Below e l) :
    Below d l ∨ v.lookup l = some .dir := by
  induction h with
  | done => exact .inl below
  | stay _ ih => exact ih below
  | @up _ d _ _ _ ih => exact (ih below).imp_left (below_tail d).trans
  | enter _ hl _ ih =>
    rcases ih below with h | dir
    · rcases below_cons_iff.1 h with rfl | h
      · exact .inr hl
      · exact .inl h
    · exact .inr dir
  | @follow _ d _ t _ _ _ _ _ ih =>
    rcases ih below with h | dir
    · unfold startOf at h
      split at h
      · obtain rfl := h.antisymm (below_root l)
        exact .inl (below_root d)
      · exact .inl h
    · exact .inr dir

/-- Without links, parts that lead down lead along their own names. -/
theorem Leads.straight (h : Leads v m d parts e) (down : [dot, dot] ∉ parts)
    (linkless : Linkless ((parts.filter (· ≠ [dot])).reverse ++ d) v) :
    e = (parts.filter (· ≠ [dot])).reverse ++ d := by
  induction h with
  | done => rfl
  | stay _ ih =>
    simp only [ne_eq, not_true_eq_false, decide_false, List.filter_cons_of_neg, Bool.false_eq_true,
      not_false_eq_true] at linkless ⊢
    exact ih (fun g => down (by simp [g])) linkless
  | up _ _ => exact absurd (by simp) down
  | @enter n d s rest e hs hl _ ih =>
    have named : ((s :: rest).filter (· ≠ [dot])).reverse ++ d =
        (rest.filter (· ≠ [dot])).reverse ++ s :: d := by
      simp [hs.notDot]
    rw [named] at linkless ⊢
    exact ih (fun g => down (by simp [g])) linkless
  | @follow n d s t rest e hs hl _ _ =>
    have below : Below (((s :: rest).filter (· ≠ [dot])).reverse ++ d) (s :: d) := by
      simp [hs.notDot, below_append]
    exact absurd hl (linkless _ t below)

/-- Parts that lead down without links lead there as long as all is the same there and above. -/
theorem Leads.above (h : Leads v m d parts e) (down : [dot, dot] ∉ parts)
    (linkless : Linkless ((parts.filter (· ≠ [dot])).reverse ++ d) v)
    (same : ∀ k, Below ((parts.filter (· ≠ [dot])).reverse ++ d) k → u.lookup k = v.lookup k) :
    Leads u m d parts e := by
  have named : ∀ {s : Bytes} {rest : List Bytes} {d : Location}, s ≠ [dot] →
      ((s :: rest).filter (· ≠ [dot])).reverse ++ d = (rest.filter (· ≠ [dot])).reverse ++ s :: d := by
    intro s rest d hs
    simp [hs]
  induction h with
  | done => exact .done
  | stay _ ih =>
    simp only [ne_eq, not_true_eq_false, decide_false, List.filter_cons_of_neg, Bool.false_eq_true,
      not_false_eq_true] at linkless same
    exact .stay (ih (fun g => down (by simp [g])) linkless same)
  | up _ _ => exact absurd (by simp) down
  | enter hs hl _ ih =>
    rw [named hs.notDot] at linkless same
    exact .enter hs ((same _ (below_append _ _)).trans hl) (ih (fun g => down (by simp [g])) linkless same)
  | follow hs hl _ _ =>
    rw [named hs.notDot] at linkless
    exact absurd hl (linkless _ _ (below_append _ _))

theorem Path.descends_segments (h : p.Descends) : [dot, dot] ∉ p.segments :=
  fun g => h (List.mem_filter.2 ⟨g, by decide⟩)

/-- A path that leads down leads to the place that it names. -/
theorem Opens.place (h : Opens v cwd p e) (down : p.Descends) (linkless : Linkless (p.place cwd) v) :
    e = p.place cwd := by
  obtain ⟨m, _, h⟩ := h
  exact h.straight (Path.descends_segments down) linkless

/-- What is off the way to a place does not matter to a path that leads down to it without links. -/
theorem Opens.above (h : Opens v cwd p e) (down : p.Descends) (linkless : Linkless (p.place cwd) v)
    (same : ∀ k, Below (p.place cwd) k → u.lookup k = v.lookup k) : Opens u cwd p e := by
  obtain ⟨m, hm, h⟩ := h
  exact ⟨m, hm, h.above (Path.descends_segments down) linkless same⟩

/-- Whatever is changed in the directory, a path that leads down to it without links leads there. -/
theorem Opens.fixed (h : Opens v cwd p e) (down : p.Descends) (linkless : Linkless (p.place cwd) v) :
    Fixed v cwd p e := by
  have place := h.place down linkless
  refine fun u hu => h.above down linkless fun k hk => ?_
  exact hu k fun inside => inside.not_above (place ▸ hk)

theorem reachName_place (h : reachName v cwd p = .ok (.name d n)) (down : p.Descends)
    (linkless : Linkless (p.place cwd).tail v) : n :: d = p.place cwd := by
  obtain ⟨_, walked⟩ := reachName_ok.1 h
  obtain ⟨last, notDot⟩ := passage_name_last walked
  obtain ⟨init, segments⟩ := List.getLast?_eq_some_iff.1 last
  have place : p.place cwd = n :: ((init.filter (· ≠ [dot])).reverse ++ startOf cwd p.bytes) := by
    simp [Path.place, Path.steps, segments, notDot]
  have notUp : n ≠ [dot, dot] := by
    rintro rfl
    exact down (mem_steps_of_reachName h)
  rw [segments] at walked
  obtain ⟨m, e, _, leads, ends⟩ := walked.leads (by simp)
  have above : [dot, dot] ∉ init := fun g => Path.descends_segments down (by simp [segments, g])
  rw [place, List.tail_cons] at linkless
  rw [place, ← leads.straight above linkless]
  cases ((passage_last notDot notUp).1 ends).2
  rfl

end Volume

namespace Action

open Volume

variable {cwd : Location} {p : Path}

/-- It is enough for the making of a directory that its path starts from one. -/
theorem upright_ensureDir_start (p : Path) : Moves cwd (fun v u =>
    Upright v ∧ v.lookup (startOf cwd p.bytes) = some .dir →
      Upright u ∧ u.lookup (startOf cwd p.bytes) = some .dir) (ensureDir p) := by
  refine moves_ensureDir_of (fun _ h => h) (fun _ _ _ f g h => g (f h)) fun q hq v u g h => ?_
  obtain ⟨upright, dirs⟩ := h.1.makeDir (by rw [Path.ancestors_start hq]; exact h.2) g
  exact ⟨upright, dirs _ h.2⟩

/-- Along a path without links above its last name, directories are made at the places that it names
and nowhere else. -/
theorem moves_ensureDir_paved (down : p.Descends) : Moves cwd
    (fun v u => Linkless (p.place cwd).tail v → Paved (p.place cwd) v u) (ensureDir p) := by
  refine moves_ensureDir_of (fun v _ => .refl _ v) ?_ ?_
  · intro u v x h g linkless
    have first := h linkless
    exact first.trans _ _ _ (g (linkless.paved first))
  · intro q hq v u made linkless
    obtain ⟨below, descends⟩ := Path.ancestors_place hq cwd
    obtain ⟨d, n, hL, hn, rfl⟩ := makeDir_ok made
    have place := reachName_place hL (descends down) (linkless.above below.tail)
    exact paved_put (place ▸ below) hn

end Action
end PinnedDeps
