import PinnedDeps.Volume.Operation

/-!
The segments of a joined path: a name that is joined to a path becomes its last segment.
-/
namespace PinnedDeps

open Bytes (slash dot)

theorem Bytes.ofText_append (a b : String) : ofText (a ++ b) = ofText a ++ ofText b := by
  simp [ofText, String.toUTF8]

/-- What an entry of a directory can be called. -/
structure IsName (n : Bytes) : Prop where
  nonempty : n ≠ []
  noSlash : slash ∉ n
  notDot : n ≠ [dot]
  notUp : n ≠ [dot, dot]

instance (n : Bytes) : Decidable (IsName n) :=
  decidable_of_iff (n ≠ [] ∧ slash ∉ n ∧ n ≠ [dot] ∧ n ≠ [dot, dot])
    ⟨fun ⟨a, b, c, d⟩ => ⟨a, b, c, d⟩, fun ⟨a, b, c, d⟩ => ⟨a, b, c, d⟩⟩

theorem IsName.relative {n : Bytes} (h : IsName n) : n.head? ≠ some slash := by
  intro g
  obtain ⟨r, rfl⟩ := List.head?_eq_some_iff.1 g
  exact h.noSlash List.mem_cons_self

theorem IsName.no_slash_last {n : Bytes} (h : IsName n) : n.getLast? ≠ some slash :=
  fun g => h.noSlash (List.mem_of_getLast? g)

theorem Volume.checkPath_ok {p : Path} : checkPath p = .ok () ↔
    p.bytes.hasNul = false ∧ p.bytes ≠ [] ∧ p.bytes.length ≤ pathLimit := by
  unfold checkPath
  split
  · simp_all
  split
  · simp_all
  split
  · rename_i h
    simp [Nat.not_le.2 h]
  · simp_all

namespace Path

theorem join_of_relative {p q : Path} (h : q.bytes.head? ≠ some slash) :
    p.join q = if p.bytes = [] ∨ p.bytes.getLast? = some slash then ⟨p.bytes ++ q.bytes⟩
      else ⟨p.bytes ++ slash :: q.bytes⟩ := by
  simp [join, isAbsolute, h]

theorem isAbsolute_extend {p : Path} (h : p.isAbsolute = true) (cs : List Component) :
    (p.extend cs).isAbsolute = true := by
  unfold extend
  induction cs generalizing p with
  | nil => exact h
  | cons c cs ih => exact ih (isAbsolute_join h)

/-- Shown as text, an absolute path is still absolute. -/
theorem isAbsolute_shown {p : Path} (h : p.isAbsolute = true) : (ofText p.shown).isAbsolute = true := by
  unfold isAbsolute ofText shown at *
  cases read : Bytes.toText? p.bytes with
  | some s => rwa [(Bytes.ofText_lossy_iff p.bytes).2 (by rw [read]; rfl)]
  | none =>
    obtain ⟨rest, hb⟩ : ∃ rest, p.bytes = slash :: rest := by
      simpa [List.head?_eq_some_iff] using h
    -- The slash is read as itself, since no character is pending before it.
    have front : Bytes.lossy p.bytes = "/" ++ String.ofList (Bytes.patch none rest) := by
      rw [Bytes.lossy, read, Option.getD_none, hb]
      exact @String.ofList_append ['/'] _
    rw [front, Bytes.ofText_append]
    rfl

/-- Only the empty path cannot be made absolute. -/
theorem exists_absolute {p : Path} (h : p.bytes ≠ []) (cwd : Path) : ∃ q, p.absolute cwd = .ok q := by
  unfold absolute
  rw [if_neg h]
  exact ⟨_, rfl⟩

theorem segments_of_name {n : Bytes} (hn : n ≠ []) (hs : slash ∉ n) : segments ⟨n⟩ = [n] := by
  simp [segments, List.splitOn_eq_singleton hs, hn]

theorem segments_append_slash (a b : Bytes) :
    segments ⟨a ++ slash :: b⟩ = segments ⟨a⟩ ++ segments ⟨b⟩ := by
  simp [segments, List.splitOn_append_cons_self]

theorem segments_join {p q : Path} (h : q.bytes.head? ≠ some slash) :
    (p.join q).segments = p.segments ++ q.segments := by
  rw [join_of_relative h]
  split
  · rename_i hp
    rcases hp with hp | hp
    · obtain ⟨b⟩ := p
      cases hp
      simp [segments]
    · obtain ⟨a, ha⟩ : ∃ a, p.bytes = a ++ [slash] := by
        obtain ⟨a, ha⟩ := List.getLast?_eq_some_iff.1 hp
        exact ⟨a, ha⟩
      have : p = ⟨a ++ slash :: []⟩ := by cases p; simp_all
      subst this
      have : (segments ⟨[]⟩ : List Bytes) = [] := rfl
      rw [segments_append_slash, this, List.append_nil, ← segments_append_slash]
      simp
  · exact segments_append_slash p.bytes q.bytes

theorem segments_div (p : Path) {n : String} (h : IsName (Bytes.ofText n)) :
    (p / n).segments = p.segments ++ [Bytes.ofText n] := by
  show (p.join ⟨Bytes.ofText n⟩).segments = _
  rw [segments_join h.relative, segments_of_name h.nonempty h.noSlash]

theorem endsInSlash_join {p q : Path} (h : q.bytes.head? ≠ some slash) (hq : q.bytes ≠ []) :
    (p.join q).endsInSlash = q.endsInSlash := by
  have last := List.getLast?_eq_some_getLast hq
  rw [join_of_relative h]
  split <;> simp [endsInSlash, List.getLast?_append, List.getLast?_cons, last]

theorem endsInSlash_div (p : Path) {n : String} (h : IsName (Bytes.ofText n)) :
    (p / n).endsInSlash = false := by
  show (p.join ⟨Bytes.ofText n⟩).endsInSlash = _
  rw [endsInSlash_join h.relative h.nonempty]
  simpa [endsInSlash] using h.no_slash_last

theorem head_join {p q : Path} (h : q.bytes.head? ≠ some slash) (d : Location) :
    Volume.startOf d (p.join q).bytes = Volume.startOf d p.bytes := by
  rw [join_of_relative h]
  unfold Volume.startOf
  cases hp : p.bytes with
  | nil => simp [h]
  | cons a r => split <;> simp

theorem start_div (p : Path) {n : String} (h : IsName (Bytes.ofText n)) (d : Location) :
    Volume.startOf d (p / n).bytes = Volume.startOf d p.bytes :=
  head_join h.relative d

theorem strides_eq {p : Path} (h : p.endsInSlash = false) :
    Volume.strides p.bytes = p.segments := by
  have : p.bytes.getLast? ≠ some slash := by simpa [endsInSlash] using h
  simp [Volume.strides, segments, this]

theorem strides_of_slash {p : Path} (h : p.endsInSlash = true) :
    Volume.strides p.bytes = p.segments ++ [[dot]] := by
  have : p.bytes.getLast? = some slash := by simpa [endsInSlash] using h
  simp [Volume.strides, segments, this]

theorem bytes_join {p q : Path} (h : q.bytes.head? ≠ some slash) :
    ∃ m, (p.join q).bytes = p.bytes ++ m ++ q.bytes := by
  rw [join_of_relative h]
  split
  · exact ⟨[], by simp⟩
  · exact ⟨[slash], by simp⟩

/-- What stands between a path and a name that is joined to it does not depend on the name. -/
theorem bytes_div (p : Path) : ∃ m, ∀ n : String, IsName (Bytes.ofText n) →
    (p / n).bytes = p.bytes ++ m ++ Bytes.ofText n := by
  refine ⟨if p.bytes = [] ∨ p.bytes.getLast? = some slash then [] else [slash], fun n hn => ?_⟩
  show (p.join ⟨Bytes.ofText n⟩).bytes = _
  rw [join_of_relative hn.relative]
  split <;> simp

theorem bytes_div_ne_nil (p : Path) {n : String} (h : IsName (Bytes.ofText n)) :
    (p / n).bytes ≠ [] := by
  obtain ⟨m, hm⟩ := bytes_join (p := p) (q := ⟨Bytes.ofText n⟩) h.relative
  show (p.join ⟨Bytes.ofText n⟩).bytes ≠ []
  simp [hm, h.nonempty]

/-- The last segment of a path ends as the path does. -/
theorem segments_of_suffix (x : Bytes) {y : Bytes} (hy : y ≠ []) (hs : slash ∉ y) :
    ∃ pre z, segments ⟨x ++ y⟩ = pre ++ [z ++ y] := by
  by_cases hx : slash ∈ x
  · obtain ⟨as, bs, hr, ha⟩ := List.eq_append_cons_of_mem (List.mem_reverse.2 hx)
    have hx : x = bs.reverse ++ slash :: as.reverse := by
      simpa using congrArg List.reverse hr
    refine ⟨segments ⟨bs.reverse⟩, as.reverse, ?_⟩
    rw [hx, List.append_assoc, List.cons_append, segments_append_slash,
      segments_of_name (n := as.reverse ++ y) (by simp [hy]) (by simp [ha, hs])]
  · refine ⟨[], x, ?_⟩
    rw [segments_of_name (by simp [hy]) (by simp [hx, hs])]
    rfl

/-- The last part of the path is looked up as a name. -/
structure EndsInName (p : Path) : Prop where
  noSlash : p.endsInSlash = false
  last : ∃ pre z, p.segments = pre ++ [z] ∧ z ≠ [dot] ∧ z ≠ [dot, dot]

theorem endsInName_div (p : Path) {n : String} (h : IsName (Bytes.ofText n)) :
    EndsInName (p / n) :=
  ⟨endsInSlash_div p h, p.segments, _, segments_div p h, h.notDot, h.notUp⟩

/-- A path ends in a name if its text ends in something longer than dots. -/
theorem endsInName_append {p : Path} {x y : Bytes} (hp : p.bytes = x ++ y) (hs : slash ∉ y)
    (hy : 2 < y.length) : EndsInName p := by
  have hne : y ≠ [] := by
    rintro rfl
    simp at hy
  obtain ⟨pre, z, h⟩ := segments_of_suffix x hne hs
  refine ⟨?_, pre, z ++ y, ?_, ?_, ?_⟩
  · have : y.getLast? ≠ some slash := fun g => hs (List.mem_of_getLast? g)
    rw [List.getLast?_eq_some_getLast hne] at this
    simpa [endsInSlash, hp, List.getLast?_append, List.getLast?_eq_some_getLast hne] using this
  · obtain ⟨b⟩ := p
    cases hp
    exact h
  · intro g
    have := congrArg List.length g
    simp only [List.length_append, List.length_singleton] at this
    omega
  · intro g
    have := congrArg List.length g
    simp only [List.length_append, List.length_cons, List.length_nil] at this
    omega

end Path
end PinnedDeps
