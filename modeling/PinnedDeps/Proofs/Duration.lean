import PinnedDeps.CommandLine.Report
import PinnedDeps.Proofs.Document

/-!
Lengths of time read back. What a length is shown as is read as the whole units of its form that it
holds, so it is never read as a longer one, and a shorter length never as more than a longer one is.
-/
namespace PinnedDeps

/-- The forms in which a length of time is shown. -/
inductive TimeForm where
  | millis
  | hundredths
  | minutes
  deriving DecidableEq, Repr

/-- What the last place of a form counts, in nanoseconds. -/
def TimeForm.unit : TimeForm → Nat
  | millis => 1000000
  | hundredths => 10000000
  | minutes => 1000000000

/-- A length of time as a text tells it. -/
structure ToldTime where
  form : TimeForm
  units : Nat
  deriving DecidableEq, Repr

namespace ToldTime

open Document (Reading Ends)

def nanos (x : ToldTime) : Nat := x.units * x.form.unit

/-- A number of at least one digit. -/
def number? (cs : List Char) : Reading Nat :=
  if cs.takeWhile Char.isDigit = [] then none
  else some (Nat.ofDigitChars 10 (cs.takeWhile Char.isDigit) 0, cs.dropWhile Char.isDigit)

/-- What follows a number of seconds: a point and two digits. -/
def part? : List Char → Option Nat
  | ['.', a, b, 's'] => if a.isDigit ∧ b.isDigit then some (Nat.ofDigitChars 10 [a, b] 0) else none
  | _ => none

/-- What follows a number of minutes: seconds that are not a minute. -/
def rest? : List Char → Option Nat
  | 'm' :: ' ' :: cs => match number? cs with
    | some (n, ['s']) => if n < 60 then some n else none
    | _ => none
  | _ => none

/-- The form that follows from what stands behind the first number. -/
def form? (n : Nat) (cs : List Char) : Option ToldTime :=
  if cs = ['m', 's'] then some ⟨.millis, n⟩
  else match part? cs with
    | some part => some ⟨.hundredths, n * 100 + part⟩
    | none => (rest? cs).map fun rest => ⟨.minutes, n * 60 + rest⟩

/-- Reads a text in any of the forms. -/
def ofText? (text : String) : Option ToldTime := (number? text.toList).bind fun r => form? r.1 r.2

theorem number?_written (n : Nat) {cs : List Char} (h : Ends cs) :
    number? ((toString n).toList ++ cs) = some (n, cs) := by
  obtain ⟨value, left⟩ := Document.digits_written n h
  have digits : ((toString n).toList ++ cs).takeWhile Char.isDigit ≠ [] := by
    rw [Document.toList_number, List.takeWhile_append_of_pos fun _ => Document.isDigit_of_mem_number]
    exact List.append_ne_nil_of_left_ne_nil Nat.toDigits_ne_nil _
  unfold number?
  rw [if_neg digits, value, left]

theorem ofText?_written {text : String} {n : Nat} {cs : List Char}
    (written : text.toList = (toString n).toList ++ cs) (h : Ends cs) : ofText? text = form? n cs := by
  unfold ofText?
  rw [written, number?_written n h]
  rfl

theorem part?_twoDigits : ∀ n < 100, part? ('.' :: ((Duration.twoDigits n).toList ++ ['s'])) = some n := by
  decide +kernel

theorem rest?_written {n : Nat} (h : n < 60) :
    rest? ('m' :: ' ' :: ((toString n).toList ++ ['s'])) = some n := by
  unfold rest?
  simp only
  rw [number?_written n (Document.ends_cons (by decide))]
  exact if_pos h

theorem ofText?_millis (n : Nat) : ofText? s!"{n}ms" = some ⟨.millis, n⟩ := by
  have written : (s!"{n}ms").toList = (toString n).toList ++ ['m', 's'] := by simp [toString]
  rw [ofText?_written written (Document.ends_cons (by decide))]
  rfl

theorem ofText?_hundredths (n : Nat) {part : Nat} (h : part < 100) :
    ofText? s!"{n}.{Duration.twoDigits part}s" = some ⟨.hundredths, n * 100 + part⟩ := by
  have written : (s!"{n}.{Duration.twoDigits part}s").toList =
      (toString n).toList ++ '.' :: ((Duration.twoDigits part).toList ++ ['s']) := by simp [toString]
  rw [ofText?_written written (Document.ends_cons (by decide))]
  unfold form?
  rw [if_neg (by simp), part?_twoDigits part h]

theorem ofText?_minutes (n : Nat) {rest : Nat} (h : rest < 60) :
    ofText? s!"{n}m {rest}s" = some ⟨.minutes, n * 60 + rest⟩ := by
  have written : (s!"{n}m {rest}s").toList =
      (toString n).toList ++ 'm' :: ' ' :: ((toString rest).toList ++ ['s']) := by simp [toString]
  rw [ofText?_written written (Document.ends_cons (by decide))]
  unfold form?
  rw [if_neg (by simp), rest?_written h]
  rfl

end ToldTime

theorem TimeForm.unit_pos (f : TimeForm) : 0 < f.unit := by
  cases f <;> decide

namespace Duration

variable {d e : Duration}

def totalNanos (d : Duration) : Nat := d.seconds * 1000000000 + d.nanos

/-- The form in which a length is shown. -/
def form (d : Duration) : TimeForm :=
  if 60 ≤ d.seconds then .minutes else if 0 < d.seconds then .hundredths else .millis

/-- The whole units of its form that a length holds. -/
def told (d : Duration) : ToldTime := ⟨d.form, d.totalNanos / d.form.unit⟩

/-- A length is read back as its whole units. -/
theorem ofText?_render (whole : d.nanos < 1000000000) : ToldTime.ofText? d.render = some d.told := by
  unfold render told form totalNanos
  split
  · rw [ToldTime.ofText?_minutes _ (Nat.mod_lt _ (by decide))]
    simp only [TimeForm.unit]
    congr 2
    omega
  split
  · have part : d.millis / 10 < 100 := by
      unfold millis
      omega
    rw [ToldTime.ofText?_hundredths _ part]
    simp only [TimeForm.unit, millis]
    congr 2
    omega
  · rw [ToldTime.ofText?_millis]
    simp only [TimeForm.unit, millis]
    congr 2
    omega

theorem nanos_told_le (d : Duration) : d.told.nanos ≤ d.totalNanos := Nat.div_mul_le_self _ _

theorem lt_nanos_told (d : Duration) : d.totalNanos < d.told.nanos + d.told.form.unit :=
  Nat.lt_div_mul_add d.form.unit_pos

/-- The form follows from the length: milliseconds below a second, minutes from a minute on. -/
theorem form_cases (whole : d.nanos < 1000000000) :
    d.form = .millis ∧ d.totalNanos < 1000000000 ∨
      d.form = .hundredths ∧ 1000000000 ≤ d.totalNanos ∧ d.totalNanos < 60 * 1000000000 ∨
      d.form = .minutes ∧ 60 * 1000000000 ≤ d.totalNanos := by
  unfold form totalNanos
  split
  · exact .inr (.inr ⟨rfl, by omega⟩)
  split
  · exact .inr (.inl ⟨rfl, by omega, by omega⟩)
  · exact .inl ⟨rfl, by omega⟩

/-- The form changes only at whole units of the later form. -/
theorem between_forms (first : d.nanos < 1000000000) (second : e.nanos < 1000000000)
    (h : d.totalNanos ≤ e.totalNanos) (other : d.form ≠ e.form) :
    ∃ n, d.totalNanos ≤ n * e.form.unit ∧ n * e.form.unit ≤ e.totalNanos := by
  have shorter := form_cases first
  rcases form_cases second with ⟨g, below⟩ | ⟨g, least, below⟩ | ⟨g, least⟩ <;> rw [g] at other ⊢
  · obtain ⟨f, -⟩ := shorter.resolve_right (by omega)
    exact absurd f other
  · refine ⟨100, ?_, least⟩
    rcases shorter with ⟨-, before⟩ | ⟨f, -⟩ | ⟨-, after⟩
    · exact Nat.le_of_lt before
    · exact absurd f other
    · omega
  · refine ⟨60, ?_, least⟩
    rcases shorter with ⟨-, before⟩ | ⟨-, -, before⟩ | ⟨f, -⟩
    · exact Nat.le_trans (Nat.le_of_lt before) (by decide)
    · exact Nat.le_of_lt before
    · exact absurd f other

theorem nanos_told_mono (first : d.nanos < 1000000000) (second : e.nanos < 1000000000)
    (h : d.totalNanos ≤ e.totalNanos) : d.told.nanos ≤ e.told.nanos := by
  by_cases same : d.form = e.form
  · unfold ToldTime.nanos told
    rw [same]
    exact Nat.mul_le_mul_right _ (Nat.div_le_div_right h)
  · obtain ⟨n, after, before⟩ := between_forms first second h same
    have units : n ≤ e.totalNanos / e.form.unit := (Nat.le_div_iff_mul_le e.form.unit_pos).2 before
    calc d.told.nanos ≤ d.totalNanos := nanos_told_le d
      _ ≤ n * e.form.unit := after
      _ ≤ e.told.nanos := Nat.mul_le_mul_right _ units

/-- A length of time that is shown is read back as one that is not longer, and shorter by less than a
unit of its form. Milliseconds are shown exactly below a second and minutes exactly from a minute on. The
shorter of two lengths is never read as more than the longer one. -/
theorem render_truncates (whole : d.nanos < 1000000000) :
    ∃ x, ToldTime.ofText? d.render = some x ∧ x.nanos ≤ d.totalNanos ∧
      d.totalNanos < x.nanos + x.form.unit ∧ (x.form = .millis ↔ d.totalNanos < 1000000000) ∧
      (x.form = .minutes ↔ 60 * 1000000000 ≤ d.totalNanos) ∧
      ∀ e : Duration, e.nanos < 1000000000 → d.totalNanos ≤ e.totalNanos →
        ∃ y, ToldTime.ofText? e.render = some y ∧ x.nanos ≤ y.nanos := by
  have form := form_cases whole
  refine ⟨d.told, ofText?_render whole, nanos_told_le d, lt_nanos_told d, ?_, ?_, fun e second h =>
    ⟨e.told, ofText?_render second, nanos_told_mono whole second h⟩⟩
  all_goals
    show d.form = _ ↔ _
    generalize d.totalNanos = a at *
    rcases form with ⟨f, h⟩ | ⟨f, h⟩ | ⟨f, h⟩ <;> simp only [f, reduceCtorEq, true_iff, false_iff] <;> omega

/-- The last nanosecond before a minute. -/
theorem render_truncates_boundary : (⟨59, 999999999⟩ : Duration).nanos < 1000000000 ∧
    (⟨60, 0⟩ : Duration).nanos < 1000000000 ∧
    ∃ x y, ToldTime.ofText? "59.99s" = some x ∧ ToldTime.ofText? "1m 0s" = some y ∧ x.form = .hundredths ∧
      x.nanos = 59990000000 ∧ x.nanos ≤ y.nanos := by
  have whole : (⟨59, 999999999⟩ : Duration).nanos < 1000000000 := by decide
  have next : (⟨60, 0⟩ : Duration).nanos < 1000000000 := by decide
  obtain ⟨x, reads, -, -, -, -, longer⟩ := render_truncates whole
  obtain ⟨y, reads', le⟩ := longer ⟨60, 0⟩ next (by decide)
  have before : (⟨59, 999999999⟩ : Duration).render = "59.99s" := by decide +kernel
  have after : (⟨60, 0⟩ : Duration).render = "1m 0s" := by decide +kernel
  rw [before] at reads
  rw [after] at reads'
  have told : ToldTime.ofText? "59.99s" = some ⟨.hundredths, 5999⟩ := by decide +kernel
  obtain rfl : _ = x := Option.some.inj (told.symm.trans reads)
  exact ⟨whole, next, _, y, reads, reads', rfl, by decide, le⟩

end Duration
end PinnedDeps
