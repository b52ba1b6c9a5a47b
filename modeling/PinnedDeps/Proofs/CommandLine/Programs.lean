import PinnedDeps.Proofs.CommandLine.Reading

/-!
What a build is told beyond a check. It reads the same arguments alike, and then looks for programs that
the environment names; it refuses to run if one of them is no text.
-/
namespace PinnedDeps.CommandLine

open Bytes (ofText toText?)
open Volume (bind_ok)

variable {env : Environ} {g g' : Given} {args args' rest : List Bytes} {name : String} {place : Place}
  {layout : Layout} {json : Bool}

/-- What a variable holds is text, if it is set. -/
def Spelled (env : Environ) (var : String) : Prop :=
  ∀ v, env.get? (ofText var) = some v → (toText? v).isSome

/-- The programs that only a build asks for. -/
def ProgramsSpelled (env : Environ) : Prop := Spelled env "BUILDDEPS_CMAKE" ∧ Spelled env "BUILDDEPS_MAKE"

/-- Nothing has been given that only a build takes. -/
def Unmade (g : Given) : Prop := ∀ s ∈ g.seen, s ∈ Verb.check.settings

/-- The same library is asked for, in the same place. -/
structure Alike (g g' : Given) : Prop where
  library : g'.library = g.library
  place : g'.place = g.place
  layout : g'.layout = g.layout
  json : g'.json = g.json

theorem Alike.trans {g₁ : Given} (h : Alike g g₁) (h' : Alike g₁ g') : Alike g g' :=
  ⟨h'.library.trans h.library, h'.place.trans h.place, h'.layout.trans h.layout, h'.json.trans h.json⟩

theorem seen_of_give {s : Setting} {v : Bytes} (h : g.give s v = .ok g') : g'.seen = s :: g.seen := by
  obtain ⟨-, -, -, stored⟩ := give_ok.1 h
  cases s <;> simp only [Given.store, Option.map_eq_some_iff, Option.some.injEq] at stored
  case verbose | json | help | version =>
    subst stored
    rfl
  all_goals
    obtain ⟨x, -, rfl⟩ := stored
    rfl

theorem kept_unmade : Kept Verb.check.settings Unmade where
  gives {g s v g'} mem unmade given := by
    intro t ht
    rw [seen_of_give given] at ht
    rcases List.mem_cons.1 ht with rfl | ht
    · exact mem
    · exact unmade t ht
  takes {g verb b g'} unmade named := by
    obtain ⟨t, -, rfl⟩ := giveLibrary_ok named
    exact unmade

/-- A program can be given as text and not otherwise. -/
theorem give_program {s : Setting} (hs : s = .cmake ∨ s = .make) (unseen : s ∉ g.seen) (v : Bytes) :
    (∀ t, toText? v = some t → ∃ g', g.give s v = .ok g' ∧ Alike g g') ∧
      (toText? v = none → g.give s v = .error .misuse) := by
  constructor <;> rcases hs with rfl | rfl <;> simp only [Given.give, if_neg unseen, Given.store]
  case left.inl | left.inr =>
    intro t text
    rw [text]
    exact ⟨_, rfl, ⟨rfl, rfl, rfl, by simp [Given.json]⟩⟩
  case right.inl | right.inr =>
    intro none
    rw [none]
    rfl

/-- A setting that no argument has given falls back to a variable, which has to be text. -/
theorem fallBack_program (env : Environ) {s : Setting} {var : String} (hs : s = .cmake ∨ s = .make)
    (falls : s.environName? = some var) (unseen : s ∉ g.seen) (ss : List Setting) :
    (Spelled env var → ∃ g', Alike g g' ∧ (∀ t ∈ g'.seen, t = s ∨ t ∈ g.seen) ∧
      Given.fallBack env g (s :: ss) = Given.fallBack env g' ss) ∧
    (¬ Spelled env var → Given.fallBack env g (s :: ss) = .error .misuse) := by
  have found : (s.environName?.filter fun _ => s ∉ g.seen).bind (fun n => env.get? (ofText n)) =
      env.get? (ofText var) := by
    rw [falls, Option.filter_some, if_pos (decide_eq_true unseen), Option.bind_some]
  rw [fallBack_cons, found]
  unfold Spelled
  cases env.get? (ofText var) with
  | none =>
    exact ⟨fun _ => ⟨g, ⟨rfl, rfl, rfl, rfl⟩, fun t ht => .inr ht, rfl⟩, fun h => absurd (by simp) h⟩
  | some v =>
    obtain ⟨given, refused⟩ := give_program hs unseen v
    cases text : toText? v with
    | none =>
      simp only [refused text]
      exact ⟨fun h => absurd (h v rfl) (by simp [text]), fun _ => rfl⟩
    | some t =>
      obtain ⟨g', given, alike⟩ := given t text
      simp only [given]
      refine ⟨fun _ => ⟨g', alike, fun x hx => ?_, rfl⟩, fun h => absurd (by simp [text]) h⟩
      rwa [seen_of_give given, List.mem_cons] at hx

theorem fallBack_unnamed {s : Setting} (h : s.environName? = none) (ss : List Setting) :
    Given.fallBack env g (s :: ss) = Given.fallBack env g ss := by
  rw [fallBack_cons, h]
  rfl

theorem fallBack_none (env : Environ) (g : Given) :
    Given.fallBack env g [.json, .verbose, .help] = .ok g := by
  rw [fallBack_unnamed rfl, fallBack_unnamed rfl, fallBack_unnamed rfl]
  rfl

/-- Behind what a check reads, a build looks for the programs. -/
theorem fallBack_programs (env : Environ) (unmade : Unmade g) :
    let ss : List Setting := [.jobs, .cmake, .make, .json, .verbose, .help]
    (ProgramsSpelled env → ∃ g', Alike g g' ∧ Given.fallBack env g ss = .ok g') ∧
    (¬ ProgramsSpelled env → Given.fallBack env g ss = .error .misuse) := by
  intro ss
  have unseen : ∀ s ∈ g.seen, s ≠ .cmake ∧ s ≠ .make := fun s hs => by
    have known := unmade s hs
    constructor <;> (rintro rfl; exact absurd known (by decide))
  obtain ⟨cmake, noCmake⟩ := fallBack_program env (.inl rfl) rfl
    (fun h => (unseen _ h).1 rfl) [.make, .json, .verbose, .help]
  rw [show Given.fallBack env g ss = _ from fallBack_unnamed rfl _]
  by_cases spelled : Spelled env "BUILDDEPS_CMAKE"
  · obtain ⟨g₁, alike, seen, first⟩ := cmake spelled
    obtain ⟨make, noMake⟩ := fallBack_program env (.inr rfl) rfl
      (fun h => (seen _ h).elim (by decide) fun h => (unseen _ h).2 rfl) [.json, .verbose, .help]
    rw [first]
    refine ⟨fun all => ?_, fun wrong => noMake fun h => wrong ⟨spelled, h⟩⟩
    obtain ⟨g₂, alike', -, second⟩ := make all.2
    exact ⟨g₂, alike.trans alike', second.trans (fallBack_none env g₂)⟩
  · exact ⟨fun all => absurd all.1 spelled, fun _ => noCmake spelled⟩

/-- What a check has read before it looks for settings that no variable stands in for. -/
theorem given_of_check (checked : readVerb .nothing args = .ok (.check, rest))
    (asked : Request.read env args = .ok (.check name place layout json)) :
    ∃ g g', Reads .check .nothing rest g ∧ g.fallBack env Verb.layoutSettings = .ok g' ∧ Unmade g' ∧
      g'.request? .check = some (.check name place layout json) := by
  obtain ⟨verb, _, found, g, reads, g', given, req⟩ := request_ok.1 asked
  rw [checked] at found
  cases found
  rw [show Verb.check.settings = Verb.layoutSettings ++ [.json, .verbose, .help] from rfl,
    fallBack_append] at given
  obtain ⟨g₁, settled, given⟩ := bind_ok.1 given
  rw [fallBack_none] at given
  cases given
  have unmade := kept_unmade.reads reads fun s hs => by cases hs
  exact ⟨g, g', reads, settled, kept_unmade.fallBack (by decide) settled unmade, req⟩

theorem request_build (alike : Alike g g')
    (req : g.request? .check = some (.check name place layout json)) :
    g'.request? .build = some (.build name place layout g'.programs json) := by
  cases named : g.library with
  | none => simp [Given.request?, named] at req
  | some lib =>
    simp only [Given.request?, named, Option.some.injEq, Request.check.injEq] at req
    obtain ⟨rfl, rfl, rfl, rfl⟩ := req
    simp only [Given.request?, alike.library, named, alike.place, alike.layout, alike.json]

/-- What a check accepts, a build accepts behind its own verb, unless a program in the environment is no
text. -/
theorem read_build (checked : readVerb .nothing args = .ok (.check, rest))
    (building : readVerb .nothing args' = .ok (.build, rest))
    (asked : Request.read env args = .ok (.check name place layout json)) :
    (ProgramsSpelled env →
      ∃ programs, Request.read env args' = .ok (.build name place layout programs json)) ∧
    (¬ ProgramsSpelled env → Request.read env args' = .error .misuse) := by
  obtain ⟨g, g₁, reads, settled, unmade, req⟩ := given_of_check checked asked
  have read : Request.read env args' =
      (Given.fallBack env g₁ [.jobs, .cmake, .make, .json, .verbose, .help] >>= fun g =>
        Given.orMisuse (g.request? .build)) := by
    rw [read_of_reads building (reads.knows (by decide) rfl),
      show Verb.build.settings = Verb.layoutSettings ++ _ from rfl, fallBack_append, settled]
    rfl
  obtain ⟨good, bad⟩ := fallBack_programs env unmade
  rw [read]
  constructor
  · intro spelled
    obtain ⟨g₂, alike, ended⟩ := good spelled
    rw [ended]
    exact ⟨g₂.programs, orMisuse_ok.2 (request_build alike req)⟩
  · intro wrong
    rw [bad wrong]
    rfl

end PinnedDeps.CommandLine
