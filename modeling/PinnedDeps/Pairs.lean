/-!
Lookups in a list of pairs, of which the first with the key counts.
-/
namespace PinnedDeps.Pairs

variable {α β : Type} [BEq α] [LawfulBEq α] [DecidableEq α]

theorem lookup_cons_if (a : α × β) (l : List (α × β)) (j : α) :
    (a :: l).lookup j = if j = a.1 then some a.2 else l.lookup j := by
  obtain ⟨k, b⟩ := a
  by_cases h : j = k
  · simp [h]
  · have : (j == k) = false := beq_false_of_ne h
    simp [List.lookup_cons, this, h]

theorem lookup_of_mem {l : List (α × β)} {k : α} {b : β} (distinct : (l.map Prod.fst).Nodup)
    (h : (k, b) ∈ l) : l.lookup k = some b := by
  induction l with
  | nil => cases h
  | cons a rest ih =>
    rw [List.map_cons, List.nodup_cons] at distinct
    rw [lookup_cons_if]
    rcases List.mem_cons.1 h with rfl | h
    · simp
    · have other : k ≠ a.1 := by
        rintro rfl
        exact distinct.1 (List.mem_map.2 ⟨_, h, rfl⟩)
      rw [if_neg other, ih distinct.2 h]

theorem mem_of_lookup {l : List (α × β)} {k : α} {b : β} (h : l.lookup k = some b) : (k, b) ∈ l := by
  induction l with
  | nil => cases h
  | cons a rest ih =>
    rw [lookup_cons_if] at h
    split at h
    · rename_i same
      cases h
      exact same ▸ List.mem_cons_self
    · exact List.mem_cons_of_mem _ (ih h)

theorem lookup_eq_none {l : List (α × β)} {k : α} (h : k ∉ l.map Prod.fst) : l.lookup k = none := by
  cases held : l.lookup k with
  | none => rfl
  | some b => exact absurd (List.mem_map_of_mem (mem_of_lookup held)) h

/-- Steps of which each changes only what is seen under the key of its pair, where no key comes twice. -/
theorem foldl_lookup {σ γ : Type} (see : σ → α → γ) (step : σ → α × β → σ) (f : β → γ → γ)
    (once : ∀ s e k, see (step s e) k = if k = e.1 then f e.2 (see s k) else see s k)
    {l : List (α × β)} (distinct : (l.map Prod.fst).Nodup) (s : σ) (k : α) :
    see (l.foldl step s) k = match l.lookup k with
      | none => see s k
      | some b => f b (see s k) := by
  induction l generalizing s with
  | nil => rfl
  | cons e l ih =>
    rw [List.map_cons, List.nodup_cons] at distinct
    rw [List.foldl_cons, ih distinct.2, lookup_cons_if, once]
    by_cases same : k = e.1
    · rw [lookup_eq_none (same ▸ distinct.1), if_pos same, if_pos same]
    · rw [if_neg same, if_neg same]

theorem lookup_filter_key (g : α → Bool) (l : List (α × β)) (j : α) :
    (l.filter fun e => g e.1).lookup j = if g j then l.lookup j else none := by
  induction l with
  | nil => simp
  | cons a rest ih =>
    rw [List.filter_cons, lookup_cons_if]
    cases hk : g a.1 with
    | true =>
      rw [if_pos rfl, lookup_cons_if, ih]
      by_cases hj : j = a.1
      · simp [hj, hk]
      · simp [hj]
    | false =>
      rw [if_neg Bool.false_ne_true, ih]
      by_cases hj : j = a.1
      · simp [hj, hk]
      · simp [hj]

theorem lookup_filter_ne (k j : α) (l : List (α × β)) :
    (l.filter (fun e => e.1 ≠ k)).lookup j = if j = k then none else l.lookup j := by
  rw [lookup_filter_key (fun i => i ≠ k)]
  by_cases h : j = k
  · simp [h]
  · simp [h]

theorem lookup_map_value (g : α → β → β) (l : List (α × β)) (j : α) :
    (l.map fun e => (e.1, g e.1 e.2)).lookup j = (l.lookup j).map (g j) := by
  induction l with
  | nil => rfl
  | cons a rest ih =>
    simp only [List.map_cons, lookup_cons_if, ih]
    split
    · rename_i h
      rw [h]
      rfl
    · rfl

/-- Renaming keys carries a lookup along, if the new key has only one old one. -/
theorem lookup_map_key (g : α → α) (l : List (α × β)) {i j : α} (h : ∀ e ∈ l, g e.1 = j ↔ e.1 = i) :
    (l.map fun e => (g e.1, e.2)).lookup j = l.lookup i := by
  induction l with
  | nil => rfl
  | cons a rest ih =>
    have hk : g a.1 = j ↔ a.1 = i := h a (by simp)
    simp only [List.map_cons, lookup_cons_if, ih fun x hx => h x (by simp [hx])]
    by_cases he : a.1 = i
    · have : j = g a.1 := (hk.2 he).symm
      simp [this, he]
    · have : ¬ j = g a.1 := fun x => he (hk.1 x.symm)
      simp [this, Ne.symm he]

theorem lookup_map_key_none (g : α → α) (l : List (α × β)) {j : α} (h : ∀ e ∈ l, g e.1 ≠ j) :
    (l.map fun e => (g e.1, e.2)).lookup j = none := by
  induction l with
  | nil => rfl
  | cons a rest ih =>
    have hk : ¬ j = g a.1 := fun x => h a (by simp) x.symm
    simp [lookup_cons_if, hk, ih fun x hx => h x (by simp [hx])]

end PinnedDeps.Pairs
