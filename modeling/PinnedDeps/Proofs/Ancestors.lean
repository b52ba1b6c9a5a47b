import PinnedDeps.Proofs.Path

/-!
The paths above a path. `steps` are the segments without the dots; the paths above are made of fewer
and fewer of them.
-/
namespace PinnedDeps.Path

open Bytes (slash dot)

variable {p : Path} {k : Nat}

/-- The segments that a walk does not pass over. -/
def steps (p : Path) : List Bytes := p.segments.filter (· ≠ [dot])

/-- What comes before the names in the components of a path. -/
def lead (p : Path) : List Component :=
  if p.isAbsolute then [.root] else if p.segments.head? = some [dot] then [.current] else []

theorem components_eq (p : Path) : p.components = p.lead ++ p.steps.map componentOfSegment := by
  unfold components lead steps
  split
  · rfl
  · split <;> rfl

/-- The path of the first so many steps. -/
def upTo (p : Path) (k : Nat) : Path :=
  ofComponents (p.lead ++ (p.steps.take k).map componentOfSegment)

/-- What a step can be: not empty, not a dot, and without a slash. -/
structure IsPart (s : Bytes) : Prop where
  nonempty : s ≠ []
  noSlash : slash ∉ s
  notDot : s ≠ [dot]

theorem not_mem_of_mem_splitOn {s b : Bytes} (h : s ∈ b.splitOn slash) : slash ∉ s := by
  induction b generalizing s with
  | nil =>
    rw [List.splitOn_nil, List.mem_singleton] at h
    simp [h]
  | cons c b ih =>
    rw [List.splitOn_cons_eq_if_modifyHead] at h
    split at h
    · rcases List.mem_cons.1 h with rfl | h
      · simp
      · exact ih h
    · rename_i hc
      cases hb : b.splitOn slash with
      | nil => exact absurd hb (List.splitOn_ne_nil slash b)
      | cons x xs =>
        rw [hb] at h
        rw [hb] at ih
        rcases List.mem_cons.1 h with rfl | h
        · have := ih (s := x) (by simp)
          have hc : ¬ slash = c := fun e => hc (by simp [e])
          simp [this, hc]
        · exact ih (by simp [h])

theorem isPart_of_mem_steps {s : Bytes} (h : s ∈ p.steps) : IsPart s := by
  unfold steps segments at h
  simp only [List.mem_filter, decide_eq_true_eq] at h
  exact ⟨h.1.2, not_mem_of_mem_splitOn h.1.1, h.2⟩

theorem steps_div (p : Path) {n : String} (h : IsName (Bytes.ofText n)) :
    (p / n).steps = p.steps ++ [Bytes.ofText n] := by
  unfold steps
  rw [segments_div p h, List.filter_append]
  simp [h.notDot]

theorem component_path {s : Bytes} : Component.path (componentOfSegment s) = ⟨s⟩ := by
  unfold componentOfSegment
  split
  · rename_i h
    rw [h]
    rfl
  · rfl

theorem segments_part {s : Bytes} (h : IsPart s) : segments ⟨s⟩ = [s] :=
  segments_of_name h.nonempty h.noSlash

theorem IsPart.relative {s : Bytes} (h : IsPart s) : s.head? ≠ some slash := by
  intro g
  obtain ⟨r, rfl⟩ := List.head?_eq_some_iff.1 g
  exact h.noSlash List.mem_cons_self

theorem extend_append (p : Path) (cs ds : List Component) :
    p.extend (cs ++ ds) = (p.extend cs).extend ds := by
  simp [extend]

/-- Joining parts to a path adds them to its segments. -/
theorem segments_extend {ss : List Bytes} (h : ∀ s ∈ ss, IsPart s) (p : Path) :
    (p.extend (ss.map componentOfSegment)).segments = p.segments ++ ss := by
  induction ss generalizing p with
  | nil => simp [extend]
  | cons s ss ih =>
    have hs : IsPart s := h s (by simp)
    show ((p.join (Component.path (componentOfSegment s))).extend _).segments = _
    rw [ih (fun x hx => h x (by simp [hx])), component_path, segments_join hs.relative,
      segments_part hs]
    simp

theorem start_extend {ss : List Bytes} (h : ∀ s ∈ ss, IsPart s) (p : Path) (d : Location) :
    Volume.startOf d (p.extend (ss.map componentOfSegment)).bytes = Volume.startOf d p.bytes := by
  induction ss generalizing p with
  | nil => rfl
  | cons s ss ih =>
    have hs : IsPart s := h s (by simp)
    show Volume.startOf d ((p.join (Component.path (componentOfSegment s))).extend _).bytes = _
    rw [ih (fun x hx => h x (by simp [hx])), component_path, head_join hs.relative]

theorem isPart_of_mem_take {s : Bytes} (h : s ∈ p.steps.take k) : IsPart s :=
  isPart_of_mem_steps (List.mem_of_mem_take h)

/-- The path that the steps are joined to. -/
theorem upTo_eq (p : Path) (k : Nat) :
    p.upTo k = (ofComponents p.lead).extend ((p.steps.take k).map componentOfSegment) :=
  extend_append _ _ _

theorem lead_cases (p : Path) :
    (p.isAbsolute = true ∧ p.lead = [.root] ∧ ofComponents p.lead = ⟨[slash]⟩) ∨
    (p.isAbsolute = false ∧ p.segments.head? = some [dot] ∧ p.lead = [.current] ∧
      ofComponents p.lead = ⟨[dot]⟩) ∨
    (p.isAbsolute = false ∧ p.lead = [] ∧ ofComponents p.lead = ⟨[]⟩) := by
  unfold lead
  cases h : p.isAbsolute with
  | true => exact .inl ⟨rfl, rfl, rfl⟩
  | false =>
    rw [if_neg Bool.false_ne_true]
    by_cases g : p.segments.head? = some [dot]
    · rw [if_pos g]
      exact .inr (.inl ⟨rfl, g, rfl, rfl⟩)
    · rw [if_neg g]
      exact .inr (.inr ⟨rfl, rfl, rfl⟩)

theorem steps_upTo (p : Path) (k : Nat) : (p.upTo k).steps = p.steps.take k := by
  have parts : (p.steps.take k).filter (· ≠ [dot]) = p.steps.take k := by
    rw [List.filter_eq_self]
    intro s hs
    simpa using (isPart_of_mem_take hs).notDot
  have hseg : (ofComponents p.lead).segments.filter (· ≠ [dot]) = [] := by
    rcases lead_cases p with ⟨_, _, h⟩ | ⟨_, _, _, h⟩ | ⟨_, _, h⟩ <;> rw [h] <;> decide
  unfold steps
  rw [upTo_eq, segments_extend fun s hs => isPart_of_mem_take hs, List.filter_append, hseg]
  exact parts

theorem start_upTo (p : Path) (k : Nat) (d : Location) :
    Volume.startOf d (p.upTo k).bytes = Volume.startOf d p.bytes := by
  rw [upTo_eq, start_extend fun s hs => isPart_of_mem_take hs]
  unfold Volume.startOf
  rcases lead_cases p with ⟨g, _, h⟩ | ⟨g, _, _, h⟩ | ⟨g, _, h⟩
  · have : p.bytes.head? = some slash := by simpa [isAbsolute] using g
    simp [h, this]
  · have : p.bytes.head? ≠ some slash := by simpa [isAbsolute] using g
    rw [if_neg this, h]
    rfl
  · have : p.bytes.head? ≠ some slash := by simpa [isAbsolute] using g
    rw [if_neg this, h]
    rfl

/-- A path that has steps has something above it. -/
theorem parent_ne_none (h : p.steps ≠ []) : p.bytes ≠ [] ∧ p.parent? ≠ none := by
  constructor
  · intro hb
    apply h
    simp [steps, segments, hb]
  · unfold parent?
    obtain ⟨init, s, hs⟩ : ∃ init s, p.steps = init ++ [s] :=
      ⟨_, _, (List.dropLast_concat_getLast h).symm⟩
    have hlast : p.components.getLast? = some (componentOfSegment s) := by
      rw [components_eq, hs, List.map_append]
      simp
    have hroot : componentOfSegment s ≠ .root := by
      unfold componentOfSegment
      split <;> simp
    rw [hlast]
    cases hc : componentOfSegment s with
    | root => exact absurd hc hroot
    | _ => simp

theorem steps_upTo_ne_nil (h : p.steps ≠ []) (hk : 0 < k) : (p.upTo k).steps ≠ [] := by
  rw [steps_upTo]
  intro g
  rcases List.take_eq_nil_iff.1 g with g | g
  · omega
  · exact h g

/-- The paths above a path, as far as they have steps. -/
theorem ancestors_eq (h : p.steps ≠ []) : ∃ more, p.ancestors =
    p :: ((List.range (p.steps.length - 1)).map fun i => p.upTo (p.steps.length - 1 - i)) ++ more := by
  have hlen : 0 < p.steps.length := List.length_pos_iff.2 h
  have hcs : p.components.length = p.lead.length + p.steps.length := by
    rw [components_eq]
    simp
  obtain ⟨extra, hkept⟩ : ∃ extra, (p.components.drop
      (if p.components.head? = some .root then 1 else 0)).length = p.steps.length - 1 + extra := by
    rcases lead_cases p with ⟨_, hl, _⟩ | ⟨_, _, hl, _⟩ | ⟨_, hl, _⟩
    · refine ⟨1, ?_⟩
      rw [components_eq, hl]
      simp
      omega
    · refine ⟨2, ?_⟩
      rw [components_eq, hl]
      simp
      omega
    · refine ⟨1, ?_⟩
      have : p.components.head? ≠ some .root := by
        rw [components_eq, hl]
        cases hs : p.steps with
        | nil => exact absurd hs h
        | cons s _ =>
          simp only [List.nil_append, List.map_cons, List.head?_cons]
          unfold componentOfSegment
          split <;> simp
      rw [if_neg this, List.drop_zero, hcs, hl]
      simp
      omega
  refine ⟨(List.range extra).map fun i =>
    ofComponents (p.components.take (p.components.length - 1 - (p.steps.length - 1 + i))), ?_⟩
  unfold ancestors
  simp only [hkept]
  rw [List.range_add, List.map_append, List.cons_append, List.map_map]
  congr 2
  apply List.map_congr_left
  intro i hi
  have hi := List.mem_range.1 hi
  unfold upTo
  congr 1
  have : p.components.length - 1 - i = p.lead.length + (p.steps.length - 1 - i) := by omega
  rw [this]
  conv => lhs; rw [components_eq]
  rw [List.take_length_add_append, List.map_take]

/-- The path of the first `k` steps; all of them make the path itself. -/
def cut (p : Path) (k : Nat) : Path := if k = p.steps.length then p else p.upTo k

/-- The paths of `k + 1` to `k + n` steps. -/
def cuts (p : Path) (k n : Nat) : List Path := (List.range n).map fun i => p.cut (k + 1 + i)

theorem cuts_succ (p : Path) (k n : Nat) : p.cuts k (n + 1) = p.cut (k + 1) :: p.cuts (k + 1) n := by
  unfold cuts
  rw [List.range_succ_eq_map, List.map_cons, List.map_map]
  congr 1
  apply List.map_congr_left
  intro i _
  show p.cut (k + 1 + (i + 1)) = p.cut (k + 1 + 1 + i)
  congr 1
  omega

theorem cuts_add (p : Path) (k m n : Nat) : p.cuts k (m + n) = p.cuts k m ++ p.cuts (k + m) n := by
  induction m generalizing k with
  | zero => simp [cuts]
  | succ m ih =>
    rw [show m + 1 + n = m + n + 1 by omega, cuts_succ, cuts_succ, ih,
      show k + 1 + m = k + (m + 1) by omega, List.cons_append]

theorem ancestors_cuts (h : p.steps ≠ []) :
    ∃ more, p.ancestors = (p.cuts 0 p.steps.length).reverse ++ more := by
  obtain ⟨more, hm⟩ := ancestors_eq h
  refine ⟨more, ?_⟩
  rw [hm]
  congr 1
  have hlen : 0 < p.steps.length := List.length_pos_iff.2 h
  apply List.ext_getElem
  · simp [cuts]
    omega
  · intro i h₁ h₂
    simp only [cuts, List.length_reverse, List.length_map, List.length_range] at h₂
    rw [List.getElem_reverse]
    simp only [cuts, List.getElem_map, List.getElem_range, List.length_map, List.length_range]
    cases i with
    | zero =>
      rw [List.getElem_cons_zero, cut, if_pos (by omega)]
    | succ i =>
      rw [List.getElem_cons_succ, List.getElem_map, List.getElem_range, cut, if_neg (by omega)]
      congr 1
      omega

/-- The bytes that some parts take up, each with a slash. -/
def weight : List Bytes → Nat
  | [] => 0
  | s :: ss => s.length + 1 + weight ss

@[simp] theorem weight_nil : weight [] = 0 := rfl

@[simp] theorem weight_cons (s : Bytes) (ss : List Bytes) :
    weight (s :: ss) = s.length + 1 + weight ss := rfl

theorem weight_filter_le (f : Bytes → Bool) (ss : List Bytes) : weight (ss.filter f) ≤ weight ss := by
  induction ss with
  | nil => simp
  | cons s ss ih =>
    rw [List.filter_cons]
    split
    · simp only [weight_cons]
      omega
    · simp only [weight_cons]
      omega

theorem weight_take_le (k : Nat) (ss : List Bytes) : weight (ss.take k) ≤ weight ss := by
  induction ss generalizing k with
  | nil => simp
  | cons s ss ih =>
    cases k with
    | zero => simp
    | succ k =>
      have := ih k
      simp only [List.take_succ_cons, weight_cons]
      omega

theorem weight_splitOn (b : Bytes) : weight (b.splitOn slash) = b.length + 1 := by
  induction b with
  | nil => rfl
  | cons c b ih =>
    rw [List.splitOn_cons_eq_if_modifyHead]
    split
    · simp only [weight_cons, List.length_nil, List.length_cons]
      omega
    · cases hb : b.splitOn slash with
      | nil => exact absurd hb (List.splitOn_ne_nil slash b)
      | cons x xs =>
        rw [hb] at ih
        simp only [List.modifyHead_cons, weight_cons, List.length_cons] at ih ⊢
        omega

theorem weight_segments_le (p : Path) : weight p.segments ≤ p.bytes.length + 1 := by
  unfold segments
  exact Nat.le_trans (weight_filter_le _ _) (Nat.le_of_eq (weight_splitOn p.bytes))

theorem weight_segments_absolute (h : p.isAbsolute = true) :
    weight p.segments ≤ p.bytes.length := by
  obtain ⟨r, hr⟩ := List.head?_eq_some_iff.1 (by simpa [isAbsolute] using h)
  unfold segments
  rw [hr, show slash :: r = [] ++ slash :: r from rfl, List.splitOn_append_cons_self]
  have := weight_filter_le (· ≠ []) (r.splitOn slash)
  rw [weight_splitOn] at this
  simpa using this

theorem length_extend_le {ss : List Bytes} (h : ∀ s ∈ ss, IsPart s) (p : Path) :
    (p.extend (ss.map componentOfSegment)).bytes.length ≤ p.bytes.length + weight ss := by
  induction ss generalizing p with
  | nil => simp [extend]
  | cons s ss ih =>
    have hs : IsPart s := h s (by simp)
    show ((p.join (Component.path (componentOfSegment s))).extend _).bytes.length ≤ _
    have := ih (fun x hx => h x (by simp [hx])) (p.join ⟨s⟩)
    have hj : (p.join ⟨s⟩).bytes.length ≤ p.bytes.length + (s.length + 1) := by
      rw [join_of_relative hs.relative]
      split <;> simp
    rw [component_path, weight_cons]
    omega

/-- The first part joins the root, or nothing, without a slash. -/
theorem length_extend_lt {ss : List Bytes} (h : ∀ s ∈ ss, IsPart s) (hne : ss ≠ []) {p : Path}
    (hp : p.bytes = [] ∨ p.bytes.getLast? = some slash) :
    (p.extend (ss.map componentOfSegment)).bytes.length < p.bytes.length + weight ss := by
  obtain ⟨s, r, rfl⟩ := List.exists_cons_of_ne_nil hne
  have hs : IsPart s := h s (by simp)
  show ((p.join (Component.path (componentOfSegment s))).extend _).bytes.length < _
  have parts : ∀ x ∈ r, IsPart x := fun x hx => h x (by simp [hx])
  have := length_extend_le parts (p.join ⟨s⟩)
  have hj : (p.join ⟨s⟩).bytes.length = p.bytes.length + s.length := by
    rw [join_of_relative hs.relative, if_pos hp]
    simp
  rw [component_path, weight_cons]
  omega

theorem length_upTo_le (h : p.steps ≠ []) (hk : 0 < k) :
    (p.upTo k).bytes.length ≤ p.bytes.length := by
  have parts : ∀ s ∈ p.steps.take k, IsPart s := fun s hs => isPart_of_mem_take hs
  have hne : p.steps.take k ≠ [] := by
    rw [← steps_upTo]
    exact steps_upTo_ne_nil h hk
  have htake := weight_take_le k p.steps
  have hsteps : weight p.steps ≤ weight p.segments := weight_filter_le _ _
  rw [upTo_eq]
  rcases lead_cases p with ⟨ha, _, hl⟩ | ⟨_, hd, _, hl⟩ | ⟨_, _, hl⟩
  · have := length_extend_lt parts hne (p := ofComponents p.lead) (by rw [hl]; simp)
    have := weight_segments_absolute ha
    rw [hl] at *
    simp only [List.length_singleton] at *
    omega
  · have := length_extend_le parts (ofComponents p.lead)
    obtain ⟨r, hr⟩ := List.head?_eq_some_iff.1 hd
    have hw := weight_segments_le p
    have : weight p.steps ≤ weight r := by
      unfold steps
      rw [hr]
      simpa using weight_filter_le (· ≠ [dot]) r
    rw [hr] at hw
    rw [hl] at *
    simp only [List.length_singleton, weight_cons] at *
    omega
  · have := length_extend_lt parts hne (p := ofComponents p.lead) (by rw [hl]; simp)
    have := weight_segments_le p
    rw [hl] at *
    simp only [List.length_nil] at *
    omega

theorem mem_of_mem_splitOn {s b : Bytes} {x : UInt8} (h : s ∈ b.splitOn slash) (hx : x ∈ s) :
    x ∈ b := by
  induction b generalizing s with
  | nil =>
    rw [List.splitOn_nil, List.mem_singleton] at h
    rwa [h] at hx
  | cons c b ih =>
    rw [List.splitOn_cons_eq_if_modifyHead] at h
    split at h
    · rcases List.mem_cons.1 h with rfl | h
      · cases hx
      · exact List.mem_cons_of_mem c (ih h hx)
    · cases hb : b.splitOn slash with
      | nil => exact absurd hb (List.splitOn_ne_nil slash b)
      | cons y ys =>
        rw [hb] at h ih
        rcases List.mem_cons.1 h with rfl | h
        · rcases List.mem_cons.1 hx with rfl | hx
          · exact List.mem_cons_self
          · exact List.mem_cons_of_mem c (ih (by simp) hx)
        · exact List.mem_cons_of_mem c (ih (by simp [h]) hx)

theorem mem_bytes_of_mem_steps {s : Bytes} {x : UInt8} (h : s ∈ p.steps) (hx : x ∈ s) :
    x ∈ p.bytes := by
  unfold steps segments at h
  simp only [List.mem_filter] at h
  exact mem_of_mem_splitOn h.1.1 hx

theorem mem_extend {ss : List Bytes} (h : ∀ s ∈ ss, IsPart s) {p : Path} {x : UInt8}
    (hx : x ∈ (p.extend (ss.map componentOfSegment)).bytes) :
    x ∈ p.bytes ∨ x = slash ∨ ∃ s ∈ ss, x ∈ s := by
  induction ss generalizing p with
  | nil => exact .inl hx
  | cons s ss ih =>
    have hs : IsPart s := h s (by simp)
    have hx : x ∈ ((p.join (Component.path (componentOfSegment s))).extend
      (ss.map componentOfSegment)).bytes := hx
    rw [component_path] at hx
    rcases ih (fun y hy => h y (by simp [hy])) hx with hx | hx | ⟨t, ht, hx⟩
    · have : x ∈ p.bytes ∨ x = slash ∨ x ∈ s := by
        rw [join_of_relative hs.relative] at hx
        split at hx
        · rcases List.mem_append.1 hx with hx | hx
          · exact .inl hx
          · exact .inr (.inr hx)
        · rcases List.mem_append.1 hx with hx | hx
          · exact .inl hx
          · exact .inr (List.mem_cons.1 hx)
      rcases this with hx | hx | hx
      · exact .inl hx
      · exact .inr (.inl hx)
      · exact .inr (.inr ⟨s, by simp, hx⟩)
    · exact .inr (.inl hx)
    · exact .inr (.inr ⟨t, by simp [ht], hx⟩)

theorem hasNul_upTo (h : p.bytes.hasNul = false) : (p.upTo k).bytes.hasNul = false := by
  have free : (0 : UInt8) ∉ p.bytes := by simpa [Bytes.hasNul] using h
  suffices (0 : UInt8) ∉ (p.upTo k).bytes by simpa [Bytes.hasNul] using this
  intro hx
  rw [upTo_eq] at hx
  rcases mem_extend (fun s hs => isPart_of_mem_take hs) hx with hx | hx | ⟨s, hs, hx⟩
  · rcases lead_cases p with ⟨_, _, hl⟩ | ⟨_, _, _, hl⟩ | ⟨_, _, hl⟩ <;> rw [hl] at hx <;>
      revert hx <;> decide
  · revert hx
    decide
  · exact free (mem_bytes_of_mem_steps (List.mem_of_mem_take hs) hx)

/-- What can be looked up can be looked up step by step. -/
theorem checkPath_upTo (h : p.steps ≠ []) (hk : 0 < k)
    (hc : Volume.checkPath p = .ok ()) : Volume.checkPath (p.upTo k) = .ok () := by
  obtain ⟨hnul, _, hlen⟩ := Volume.checkPath_ok.1 hc
  exact Volume.checkPath_ok.2 ⟨hasNul_upTo hnul, (parent_ne_none (steps_upTo_ne_nil h hk)).1,
    Nat.le_trans (length_upTo_le h hk) hlen⟩

end PinnedDeps.Path
