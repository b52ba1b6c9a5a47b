import PinnedDeps.CommandLine.Request
import PinnedDeps.Proofs.Volume.Outcome

/-!
What the reading of arguments keeps. Whatever holds of nothing and is kept by each setting of a verb
holds of all that is read behind the verb; and what is read behind one verb is read alike behind
another that knows the same settings.
-/
namespace PinnedDeps.CommandLine

open Bytes (ofText)
open Volume (bind_ok)

variable {verb verb' : Verb} {among known : List Setting} {g g' : Given} {s : Setting} {b : Bytes}
  {env : Environ} {rest : List Bytes} {r : Given × Option Setting}

theorem orMisuse_ok {α : Type} {x : Option α} {a : α} : Given.orMisuse x = .ok a ↔ x = some a := by
  cases x <;> simp [Given.orMisuse]

theorem mem_of_named? (h : Setting.named? among b = some s) : s ∈ among := List.mem_of_find?_eq_some h

theorem mem_of_lettered? {c : UInt8} (h : Setting.lettered? among c = some s) : s ∈ among :=
  List.mem_of_find?_eq_some h

/-- A property that each of some settings keeps, and the name of a library too. -/
structure Kept (among : List Setting) (P : Given → Prop) : Prop where
  gives : ∀ {g s v g'}, s ∈ among → P g → g.give s v = .ok g' → P g'
  takes : ∀ {g verb b g'}, P g → Given.giveLibrary verb g b = .ok g' → P g'

section Kept

variable {P : Given → Prop} (kept : Kept among P)
include kept

theorem Kept.letters (h : giveLetters among g b = .ok r) (hg : P g) :
    P r.1 ∧ ∀ s ∈ r.2, s ∈ among := by
  induction b generalizing g with
  | nil =>
    cases h
    exact ⟨hg, by simp⟩
  | cons c rest ih =>
    rw [giveLetters] at h
    obtain ⟨s, hs, h⟩ := bind_ok.1 h
    have mem : s ∈ among := mem_of_lettered? (orMisuse_ok.1 hs)
    split at h
    · split at h
      · cases h
        exact ⟨hg, by simpa using mem⟩
      · obtain ⟨g₁, given, h⟩ := bind_ok.1 h
        cases h
        exact ⟨kept.gives mem hg given, by simp⟩
      · obtain ⟨g₁, given, h⟩ := bind_ok.1 h
        cases h
        exact ⟨kept.gives mem hg given, by simp⟩
    · obtain ⟨g₁, given, h⟩ := bind_ok.1 h
      exact ih h (kept.gives mem hg given)

theorem Kept.long (h : giveLong among g b = .ok r) (hg : P g) :
    P r.1 ∧ ∀ s ∈ r.2, s ∈ among := by
  unfold giveLong at h
  obtain ⟨s, hs, h⟩ := bind_ok.1 h
  have mem : s ∈ among := mem_of_named? (orMisuse_ok.1 hs)
  split at h
  · obtain ⟨g₁, given, h⟩ := bind_ok.1 h
    cases h
    exact ⟨kept.gives mem hg given, by simp⟩
  · cases h
    exact ⟨hg, by simpa using mem⟩
  · obtain ⟨g₁, given, h⟩ := bind_ok.1 h
    cases h
    exact ⟨kept.gives mem hg given, by simp⟩
  · cases h

theorem Kept.setting (h : giveSetting among g b = .ok r) (hg : P g) :
    P r.1 ∧ ∀ s ∈ r.2, s ∈ among := by
  unfold giveSetting at h
  split at h
  · exact kept.long h hg
  · exact kept.letters h hg

theorem Kept.libraries (h : rest.foldlM (Given.giveLibrary verb) g = .ok g') (hg : P g) : P g' := by
  induction rest generalizing g with
  | nil =>
    cases h
    exact hg
  | cons a rest ih =>
    rw [List.foldlM_cons] at h
    obtain ⟨g₁, given, h⟩ := bind_ok.1 h
    exact ih h (kept.takes hg given)

end Kept

/-- What the words behind a verb come to, if none of them is wrong. -/
inductive Reads (verb : Verb) : Given → List Bytes → Given → Prop
  | done {g : Given} : Reads verb g [] g
  | ended {g g' : Given} {rest} : rest.foldlM (Given.giveLibrary verb) g = .ok g' →
      Reads verb g (endOfSettings :: rest) g'
  | whole {g g₁ g' : Given} {a rest} : a ≠ endOfSettings → isSetting a = true →
      giveSetting verb.settings g a = .ok (g₁, none) → Reads verb g₁ rest g' →
      Reads verb g (a :: rest) g'
  | waiting {g g₁ g₂ g' : Given} {s a v rest} : a ≠ endOfSettings → isSetting a = true →
      giveSetting verb.settings g a = .ok (g₁, some s) → isSetting v = false → g₁.give s v = .ok g₂ →
      Reads verb g₂ rest g' → Reads verb g (a :: v :: rest) g'
  | library {g g₁ g' : Given} {a rest} : a ≠ endOfSettings → isSetting a = false →
      g.giveLibrary verb a = .ok g₁ → Reads verb g₁ rest g' → Reads verb g (a :: rest) g'

theorem reads_iff : readRest verb g rest = .ok g' ↔ Reads verb g rest g' := by
  constructor
  · intro h
    induction g, rest using readRest.induct verb with
    | case1 g =>
      cases h
      exact .done
    | case2 g rest =>
      rw [readRest, if_pos rfl] at h
      exact .ended h
    | case3 g a rest ne set e refused =>
      rw [readRest, if_neg ne, if_pos set, refused] at h
      cases h
    | case4 g a rest ne set g₁ given ih =>
      rw [readRest, if_neg ne, if_pos set, given] at h
      exact .whole ne set given (ih h)
    | case5 g a ne set g₁ s given =>
      rw [readRest, if_neg ne, if_pos set, given] at h
      cases h
    | case6 g a ne set g₁ s given v rest again =>
      rw [readRest, if_neg ne, if_pos set, given] at h
      simp only [if_pos again] at h
      cases h
    | case7 g a ne set g₁ s given v rest plain ih =>
      rw [readRest, if_neg ne, if_pos set, given] at h
      simp only [if_neg plain] at h
      obtain ⟨g₂, valued, h⟩ := bind_ok.1 h
      exact .waiting ne set given (by simpa using plain) valued (ih g₂ h)
    | case8 g a rest ne plain ih =>
      rw [readRest, if_neg ne, if_neg plain] at h
      obtain ⟨g₁, named, h⟩ := bind_ok.1 h
      exact .library ne (by simpa using plain) named (ih g₁ h)
  · intro h
    induction h with
    | done => rfl
    | ended h => rw [readRest, if_pos rfl, h]
    | whole ne set given _ ih =>
      rw [readRest, if_neg ne, if_pos set, given]
      exact ih
    | waiting ne set given plain valued _ ih =>
      rw [readRest, if_neg ne, if_pos set, given]
      simp only [plain, valued]
      exact ih
    | library ne plain named _ ih =>
      rw [readRest, if_neg ne, if_neg (by simp [plain]), named]
      exact ih

theorem Kept.reads {P : Given → Prop} (kept : Kept verb.settings P) (h : Reads verb g rest g')
    (hg : P g) : P g' := by
  induction h with
  | done => exact hg
  | ended h => exact kept.libraries h hg
  | whole _ _ given _ ih => exact ih (kept.setting given hg).1
  | waiting _ _ given _ valued _ ih =>
    obtain ⟨hg₁, mem⟩ := kept.setting given hg
    exact ih (kept.gives (mem _ rfl) hg₁ valued)
  | library _ _ named _ ih => exact ih (kept.takes hg named)

theorem fallBack_cons (env : Environ) (g : Given) (s : Setting) (rest : List Setting) :
    Given.fallBack env g (s :: rest) =
      match (s.environName?.filter fun _ => s ∉ g.seen).bind fun name => env.get? (ofText name) with
      | some v => g.give s v >>= fun g => Given.fallBack env g rest
      | none => Given.fallBack env g rest := rfl

theorem Kept.fallBack {P : Given → Prop} (kept : Kept among P) {ss : List Setting}
    (sub : ∀ s ∈ ss, s ∈ among) (h : Given.fallBack env g ss = .ok g') (hg : P g) : P g' := by
  induction ss generalizing g with
  | nil =>
    cases h
    exact hg
  | cons s ss ih =>
    rw [fallBack_cons] at h
    have sub' : ∀ s ∈ ss, s ∈ among := fun t ht => sub t (List.mem_cons_of_mem _ ht)
    split at h
    · obtain ⟨g₁, given, h⟩ := bind_ok.1 h
      exact ih sub' h (kept.gives (sub s List.mem_cons_self) hg given)
    · exact ih sub' h hg

theorem request_ok {args : List Bytes} {q : Request} : Request.read env args = .ok q ↔
    ∃ verb rest, readVerb .nothing args = .ok (verb, rest) ∧ ∃ g, Reads verb .nothing rest g ∧
      ∃ g', g.fallBack env verb.settings = .ok g' ∧ g'.request? verb = some q := by
  unfold Request.read
  rw [bind_ok]
  simp only [bind_ok, orMisuse_ok, reads_iff, Prod.exists]

theorem read_of_reads {args : List Bytes} (found : readVerb .nothing args = .ok (verb, rest))
    (reads : Reads verb .nothing rest g) : Request.read env args =
      (g.fallBack env verb.settings >>= fun g => Given.orMisuse (g.request? verb)) := by
  unfold Request.read
  rw [found]
  show (readRest verb .nothing rest >>= _) = _
  rw [reads_iff.2 reads]
  rfl

/-- Whatever is kept holds of all that a request is made of. -/
theorem Kept.request {P : Given → Prop} {args : List Bytes} {q : Request}
    (h : Request.read env args = .ok q) (start : P .nothing)
    (kept : ∀ verb, Kept (Verb.settings verb) P) : ∃ verb g, P g ∧ g.request? verb = some q := by
  obtain ⟨verb, rest, -, g, reads, g', given, asked⟩ := request_ok.1 h
  exact ⟨verb, g', (kept verb).fallBack (fun _ => id) given ((kept verb).reads reads start), asked⟩

theorem give_ok {v : Bytes} : g.give s v = .ok g' ↔ s ≠ .help ∧ s ≠ .version ∧ s ∉ g.seen ∧
    ({ g with seen := s :: g.seen } : Given).store s v = some g' := by
  unfold Given.give
  split
  · simp
  · simp
  · split
    · simp [*]
    · have help : s ≠ .help := ‹_›
      have version : s ≠ .version := ‹_›
      simp [*, orMisuse_ok]

theorem giveLibrary_ok (h : g.giveLibrary verb b = .ok g') :
    ∃ t, Bytes.toText? b = some t ∧ g' = { g with library := some t } := by
  unfold Given.giveLibrary at h
  split at h
  · cases h
  · cases ht : Bytes.toText? b with
    | none =>
      rw [ht] at h
      cases h
    | some t =>
      rw [ht] at h
      cases h
      exact ⟨t, rfl, rfl⟩

section Knows

/-- No two settings have one name. -/
theorem long_inj {s t : Setting} (h : s.long = t.long) : s = t := by
  cases s <;> cases t <;> first | rfl | exact absurd h (by decide)

theorem letter_inj {s t : Setting} (h : s.letter? = t.letter?) (has : s.letter? ≠ none) : s = t := by
  cases s <;> cases t <;> first | rfl | exact absurd rfl has | exact absurd h (by decide)

theorem named?_eq_some : Setting.named? among b = some s ↔ s ∈ among ∧ ofText s.long = b := by
  constructor
  · exact fun h => ⟨mem_of_named? h, by simpa using List.find?_some h⟩
  · rintro ⟨mem, name⟩
    cases found : Setting.named? among b with
    | none => exact absurd (decide_eq_true name) (List.find?_eq_none.1 found s mem)
    | some t =>
      have other : ofText t.long = b := by simpa using List.find?_some found
      rw [long_inj (Bytes.ofText_inj.1 (other.trans name.symm))]

/-- A setting has the letter that a byte stands for. -/
def Setting.Lettered (s : Setting) (l : UInt8) : Prop :=
  ∃ c, s.letter? = some c ∧ ofText c.toString = [l]

theorem lettered?_eq_some {l : UInt8} :
    Setting.lettered? among l = some s ↔ s ∈ among ∧ s.Lettered l := by
  have meant : ∀ t : Setting,
      (t.letter?.any fun c => decide (ofText c.toString = [l])) = true ↔ t.Lettered l := by
    intro t
    unfold Setting.Lettered
    cases t.letter? <;> simp
  constructor
  · intro h
    have has := List.find?_some h
    exact ⟨mem_of_lettered? h, (meant s).1 has⟩
  · rintro ⟨mem, has⟩
    cases found : Setting.lettered? among l with
    | none => exact absurd ((meant s).2 has) (List.find?_eq_none.1 found s mem)
    | some t =>
      have has' := List.find?_some found
      obtain ⟨c, letter, byte⟩ := has
      obtain ⟨d, letter', byte'⟩ := (meant t).1 has'
      obtain rfl : d = c := by simpa using Bytes.ofText_inj.1 (byte'.trans byte.symm)
      rw [letter_inj (letter'.trans letter.symm) (by simp [letter'])]

variable (sub : ∀ s ∈ among, s ∈ known)
include sub

theorem giveLetters_knows (h : giveLetters among g b = .ok r) : giveLetters known g b = .ok r := by
  induction b generalizing g with
  | nil => exact h
  | cons c rest ih =>
    rw [giveLetters] at h ⊢
    obtain ⟨s, hs, h⟩ := bind_ok.1 h
    obtain ⟨mem, letter⟩ := lettered?_eq_some.1 (orMisuse_ok.1 hs)
    refine bind_ok.2 ⟨s, orMisuse_ok.2 (lettered?_eq_some.2 ⟨sub s mem, letter⟩), ?_⟩
    by_cases valued : s.takesValue
    · rw [if_pos valued] at h ⊢
      exact h
    · rw [if_neg valued] at h ⊢
      obtain ⟨g₁, given, h⟩ := bind_ok.1 h
      exact bind_ok.2 ⟨g₁, given, ih h⟩

theorem giveSetting_knows (h : giveSetting among g b = .ok r) : giveSetting known g b = .ok r := by
  unfold giveSetting at h ⊢
  split at h
  · obtain ⟨s, hs, h⟩ := bind_ok.1 h
    obtain ⟨mem, name⟩ := named?_eq_some.1 (orMisuse_ok.1 hs)
    exact bind_ok.2 ⟨s, orMisuse_ok.2 (named?_eq_some.2 ⟨sub s mem, name⟩), h⟩
  · exact giveLetters_knows sub h

end Knows

/-- What one verb takes, another that knows its settings takes alike. -/
theorem Reads.knows (h : Reads verb g rest g') (sub : ∀ s ∈ verb.settings, s ∈ verb'.settings)
    (same : verb'.takesLibrary = verb.takesLibrary) : Reads verb' g rest g' := by
  have takes : ∀ g b, Given.giveLibrary verb' g b = Given.giveLibrary verb g b := by
    intro g b
    unfold Given.giveLibrary
    rw [same]
  induction h with
  | done => exact .done
  | ended h => exact .ended (by rw [show Given.giveLibrary verb' = Given.giveLibrary verb from
      funext fun g => funext (takes g), h])
  | whole ne set given _ ih => exact .whole ne set (giveSetting_knows sub given) ih
  | waiting ne set given plain valued _ ih =>
    exact .waiting ne set (giveSetting_knows sub given) plain valued ih
  | library ne plain named _ ih => exact .library ne plain ((takes _ _).trans named) ih

theorem fallBack_append (env : Environ) (g : Given) (ss ts : List Setting) :
    Given.fallBack env g (ss ++ ts) =
      Given.fallBack env g ss >>= fun g => Given.fallBack env g ts := by
  induction ss generalizing g with
  | nil => rfl
  | cons s ss ih =>
    rw [List.cons_append, fallBack_cons, fallBack_cons]
    split
    · cases g.give s _ with
      | error e => rfl
      | ok g₁ => exact ih g₁
    · exact ih g

/-- No empty path has been given for where sources and builds lie. -/
def DepsNamed (g : Given) : Prop := ∀ p, g.deps = some p → p.bytes ≠ []

theorem kept_depsNamed (among : List Setting) : Kept among DepsNamed where
  gives {g s v g'} _ named given := by
    obtain ⟨-, -, -, stored⟩ := give_ok.1 given
    cases s <;> simp only [Given.store, Option.map_eq_some_iff, Option.some.injEq] at stored
    case deps =>
      obtain ⟨p, hp, rfl⟩ := stored
      rintro q hq
      cases hq
      unfold Given.path? at hp
      split at hp
      · cases hp
      · cases hp
        assumption
    case verbose | json | help | version =>
      subst stored
      exact named
    all_goals
      obtain ⟨x, -, rfl⟩ := stored
      exact named
  takes {g verb b g'} named given := by
    obtain ⟨t, -, rfl⟩ := giveLibrary_ok given
    exact named

/-- The place that a request is about, if it is about one. -/
def Request.place? : Request → Option Place
  | .build _ place _ _ _ | .check _ place _ _ | .env _ place _ => some place
  | .info => none

theorem place_of_request? {q : Request} {place : Place} (h : g.request? verb = some q)
    (about : q.place? = some place) : place = g.place := by
  unfold Given.request? at h
  split at h <;> cases h <;> cases about <;> rfl

theorem deps_ne_nil {args : List Bytes} {q : Request} {place : Place} (h : Request.read env args = .ok q)
    (about : q.place? = some place) : place.deps.bytes ≠ [] := by
  obtain ⟨verb, g, named, asked⟩ :=
    Kept.request h (fun _ h => by cases h) fun verb => kept_depsNamed verb.settings
  rw [place_of_request? asked about]
  show (g.deps.getD "Deps").bytes ≠ []
  cases hd : g.deps with
  | none => decide
  | some p => exact named p hd

end PinnedDeps.CommandLine
