import PinnedDeps.Proofs.Source.Confinement

/-!
Clearing what an interrupted acquisition has left. A clearing that goes through leaves nothing at the
three names of a source and touches nothing else, and a second one finds nothing to do. It is stopped
by a directory in the place of the archive, by a file in the place of a tree, and by names that the
system refuses.
-/
namespace PinnedDeps

open Bytes (ofText dot)

namespace Volume

variable {v u : Volume} {N : Nat} {cwd d e : Location} {parts : List Bytes} {p : Path} {n : String}

/-- With fewer entries a walk goes the same way, or ends early where one is missing. -/
theorem Passage.thins {r : Except SystemError Landing} (h : Passage v false N d parts r)
    (g : Thins v u) : Passage u false N d parts r ∨ Passage u false N d parts (.error .noEntry) := by
  induction h with
  | done => exact .inl .done
  | stay _ ih => exact ih.imp .stay .stay
  | up _ ih => exact ih.imp .up .up
  | long hd hu hl => exact .inl (.long hd hu hl)
  | @enter N d s rest r hs hl hne _ ih =>
    cases there : u.lookup (s :: d) with
    | none => exact .inr (.missing hs there hne)
    | some x =>
      have dir : u.lookup (s :: d) = some .dir := there.trans ((g _ _ there).symm.trans hl)
      exact ih.imp (.enter hs dir hne) (.enter hs dir hne)
  | @follow N d s t rest r hs hl hne _ ih =>
    have more : rest ≠ [] := fun g => hne ⟨g, rfl⟩
    cases there : u.lookup (s :: d) with
    | none => exact .inr (.missing hs there more)
    | some x =>
      have link : u.lookup (s :: d) = some (.link t) := there.trans ((g _ _ there).symm.trans hl)
      exact ih.imp (.follow hs link hne) (.follow hs link hne)
  | @exhausted d s t rest hs hl hne =>
    have more : rest ≠ [] := fun g => hne ⟨g, rfl⟩
    cases there : u.lookup (s :: d) with
    | none => exact .inr (.missing hs there more)
    | some x => exact .inl (.exhausted hs (there.trans ((g _ _ there).symm.trans hl)) hne)
  | stop hs => exact .inl (.stop hs (by simp))
  | @blocked N d s f rest hs hl hne =>
    cases there : u.lookup (s :: d) with
    | none => exact .inr (.missing hs there hne)
    | some x => exact .inl (.blocked hs (there.trans ((g _ _ there).symm.trans hl)) hne)
  | missing hs hl hne => exact .inl (.missing hs (g.none hl) hne)

theorem reachName_thins (h : Thins v u) (cwd : Location) (p : Path) :
    reachName u cwd p = reachName v cwd p ∨ reachName u cwd p = .error SystemError.noEntry := by
  cases hc : checkPath p with
  | error x =>
    have refused : ∀ v, reachName v cwd p = .error x := by
      intro v
      unfold reachName
      rw [hc]
      rfl
    exact .inl ((refused u).trans (refused v).symm)
  | ok _ =>
    have walks : ∀ v, reachName v cwd p = lift (walk v false maxLinks (startOf cwd p.bytes) p.segments) := by
      intro v
      unfold reachName
      rw [hc]
      rfl
    rw [walks, walks]
    rcases (passage_walk v false maxLinks (startOf cwd p.bytes) p.segments).thins h with same | early
    · exact .inl (congrArg lift same.eq_walk)
    · exact .inr (congrArg lift early.eq_walk)

theorem entryAt_eq_reachName (h : p.endsInSlash = false) :
    v.entryAt cwd p = (reachName v cwd p >>= found v) := by
  unfold entryAt
  rw [reach_eq_reachName h]

/-- The system says of the path that nothing is there. -/
def Missing (v : Volume) (cwd : Location) (p : Path) : Prop :=
  v.entryAt cwd p = .error SystemError.noEntry

theorem Missing.thins (slashless : p.endsInSlash = false) (h : Missing v cwd p) (g : Thins v u) :
    Missing u cwd p := by
  unfold Missing at h ⊢
  rw [entryAt_eq_reachName slashless] at h ⊢
  rcases reachName_thins g cwd p with same | early
  · rw [same]
    cases hL : reachName v cwd p with
    | error x => rwa [hL] at h
    | ok L =>
      rw [hL] at h
      unfold found at h ⊢
      cases there : v.lookup L.location with
      | none => simp [bind, Except.bind, g.none there]
      | some x => simp [bind, Except.bind, there] at h
  · rw [early]
    rfl

/-- No path is refused with the excuse that nothing is there, but for the empty one. -/
theorem usable_or_refused_otherwise (hp : p.bytes ≠ []) :
    checkPath p = .ok () ∨ ∃ x, checkPath p = .error x ∧ x ≠ SystemError.noEntry := by
  unfold checkPath
  rw [if_neg hp]
  split
  · exact .inr ⟨_, rfl, by decide⟩
  · split
    · exact .inr ⟨_, rfl, by decide⟩
    · exact .inl rfl

/-- A name in a directory is not missing because the system refuses it. -/
theorem Missing.lookup (hn : IsName (ofText n)) (h : Missing v cwd (p / n)) (opens : Opens v cwd p e) :
    checkPath (p / n) = .ok () ∧ (ofText n).length ≤ nameLimit ∧ v.lookup (ofText n :: e) = none := by
  have slashless := Path.endsInSlash_div p hn
  unfold Missing at h
  rcases usable_or_refused_otherwise (Path.bytes_div_ne_nil p hn) with usable | ⟨x, refused, hx⟩
  · by_cases short : (ofText n).length ≤ nameLimit
    · refine ⟨usable, short, ?_⟩
      rw [entryAt_eq hn usable short opens] at h
      unfold found at h
      split at h
      · cases h
      · assumption
    · obtain ⟨k, hk, way⟩ := opens
      have walked : Passage v false maxLinks _ (p.segments ++ [ofText n]) (.error .nameTooLong) :=
        way.passage hk (by simp) (.long hn.notDot hn.notUp (Nat.lt_of_not_le short))
      have long : reachName v cwd (p / n) = .error SystemError.nameTooLong := by
        unfold reachName
        rw [usable, Path.segments_div p hn, Path.start_div p hn]
        exact congrArg lift walked.eq_walk
      rw [entryAt_eq_reachName slashless, long] at h
      cases h
  · rw [entryAt_eq_reachName slashless, reachName, refused] at h
    cases h
    exact absurd rfl hx

end Volume

namespace Action

open Volume

variable {o : Outside} {w w' : World} {v u : Volume} {cwd : Location} {p : Path}

/-- Nothing keeps the path from its last name but that something is not there. -/
def Aimed (v : Volume) (cwd : Location) (p : Path) : Prop :=
  ∀ x, reachName v cwd p = .error x → x = SystemError.noEntry

theorem Aimed.thins (h : Aimed v cwd p) (g : Thins v u) : Aimed u cwd p := by
  intro x hx
  rcases reachName_thins g cwd p with same | early
  · exact h x (same.symm.trans hx)
  · rw [early] at hx
    cases hx
    rfl

theorem aimed_of_reachName {L : Landing} (h : reachName v cwd p = .ok L) : Aimed v cwd p := by
  intro x hx
  rw [h] at hx
  cases hx

theorem aimed_of_error {x : IoError} (h : reachName v cwd p = .error x) :
    Aimed v cwd p ↔ x = SystemError.noEntry := by
  refine ⟨fun aimed => aimed x h, ?_⟩
  rintro rfl y hy
  rw [h] at hy
  cases hy
  rfl

section Name

variable (hp : p.EndsInName)
include hp

theorem Aimed.missing (aimed : Aimed v cwd p) (vacant : Vacant v cwd p) : Missing v cwd p := by
  unfold Missing
  unfold Vacant at vacant
  rw [entryAt_eq_reachName hp.noSlash] at vacant ⊢
  cases hL : reachName v cwd p with
  | error x =>
    rw [aimed x hL]
    rfl
  | ok L =>
    rw [hL] at vacant
    unfold found at vacant ⊢
    cases there : v.lookup L.location with
    | none => simp [bind, Except.bind, there]
    | some y => simp [bind, Except.bind, there, Except.isOk, Except.toBool] at vacant

/-- The removal of a file goes through unless a directory is there. -/
theorem removeFileIfThere_ok_iff : ((removeFileIfThere p).run o w).1 = .ok () ↔
    Aimed w.volume w.cwd p ∧ ∀ l, w.volume.entryAt w.cwd p ≠ .ok (l, .dir) := by
  rw [run_removeFileIfThere, entryAt_eq_reachName hp.noSlash]
  unfold removeFile
  cases hL : reachName w.volume w.cwd p with
  | error x =>
    rw [aimed_of_error hL]
    by_cases hx : x = SystemError.noEntry <;> simp [bind, Except.bind, hx]
  | ok L =>
    obtain ⟨d, n, rfl⟩ := reachName_of_endsInName hp hL
    have aimed := aimed_of_reachName hL
    cases there : w.volume.lookup (n :: d) with
    | none => simp [bind, Except.bind, found, Landing.location, there, aimed]
    | some y =>
      have refused : SystemError.isDirectory ≠ SystemError.noEntry := by decide
      cases y <;>
        simp [bind, Except.bind, found, Landing.location, there, aimed, refused, hp.noSlash]

theorem aimed_of_entryAt_error {x : IoError} (h : v.entryAt cwd p = .error x) :
    Aimed v cwd p ↔ x = SystemError.noEntry := by
  rw [entryAt_eq_reachName hp.noSlash] at h
  cases hL : reachName v cwd p with
  | error y =>
    rw [hL] at h
    cases h
    exact aimed_of_error hL
  | ok L =>
    rw [hL] at h
    refine iff_of_true (aimed_of_reachName hL) ?_
    unfold found at h
    cases there : v.lookup L.location with
    | none => simpa [bind, Except.bind, there] using h.symm
    | some y => simp [bind, Except.bind, there] at h

omit hp in
theorem aimed_of_entryAt {y : Location × Entry} (h : v.entryAt cwd p = .ok y) : Aimed v cwd p := by
  obtain ⟨l, x⟩ := y
  obtain ⟨L, hL, -⟩ := reachName_of_entryAt h
  exact aimed_of_reachName hL

/-- A directory that has been emptied is removed, if the path still leads to it. -/
theorem removeDir_emptied {top : Location} (seen : v.entryAt cwd p = .ok (top, .dir))
    (emptied : Emptied top v u) :
    (∃ x, u.removeDir cwd p = .ok x) ∨ u.removeDir cwd p = .error SystemError.noEntry := by
  obtain ⟨L, hL, rfl, dir⟩ := entryAt_ok.1 seen
  rw [reach_eq_reachName hp.noSlash] at hL
  obtain ⟨d, n, rfl⟩ := reachName_of_endsInName hp hL
  have root : u.lookup (n :: d) = some .dir := (emptied.without _ fun g => g.2 rfl).trans dir
  have empty : u.names (n :: d) = [] := names_of_empty fun m => emptied.within _ (inside_cons m _)
  unfold removeDir
  rcases reachName_thins emptied.thins cwd p with same | early
  · rw [same, hL]
    simp [bind, Except.bind, root, empty]
  · rw [early]
    exact .inr rfl

/-- The removal of a tree goes through unless a file is there, whatever is in the tree. -/
theorem removeTreeIfThere_ok_iff : ((removeTreeIfThere p).run o w).1 = .ok () ↔
    Aimed w.volume w.cwd p ∧ ∀ l f, w.volume.entryAt w.cwd p ≠ .ok (l, .file f) := by
  unfold removeTreeIfThere
  rw [run_ifThere]
  cases hx : w.volume.entryAt w.cwd p with
  | error x =>
    rw [run_removeTree_error hx, aimed_of_entryAt_error hp hx]
    by_cases missing : x = SystemError.noEntry <;> simp [missing]
  | ok y =>
    have aimed := aimed_of_entryAt hx
    obtain ⟨top, y⟩ := y
    cases y with
    | file f =>
      have refused : SystemError.notDirectory ≠ SystemError.noEntry := by decide
      rw [run_removeTree_file hx]
      simp [refused]
    | link t =>
      obtain ⟨x, removed⟩ := removeFile_link hp hx
      rw [run_removeTree_link hx, run_change, removed]
      simp [aimed]
    | dir =>
      obtain ⟨w₁, run, moved, emptied⟩ := run_removeTree_dir (o := o) hx
      rw [run, run_change, moved.cwd]
      rcases removeDir_emptied hp hx emptied with ⟨x, removed⟩ | missing
      · rw [removed]
        simp [aimed]
      · rw [missing]
        simp [aimed]

theorem removeFile_of_missing (h : Missing v cwd p) :
    v.removeFile cwd p = .error SystemError.noEntry := by
  unfold Missing at h
  rw [entryAt_eq_reachName hp.noSlash] at h
  unfold removeFile
  cases hL : reachName v cwd p with
  | error x =>
    rw [hL] at h
    cases h
    rfl
  | ok L =>
    obtain ⟨d, n, rfl⟩ := reachName_of_endsInName hp hL
    rw [hL] at h
    have free : v.lookup (n :: d) = none := by
      cases there : v.lookup (n :: d) with
      | none => rfl
      | some y => simp [found, Landing.location, bind, Except.bind, there] at h
    simp [bind, Except.bind, free]

/-- Where nothing is, a removal has nothing to do. -/
theorem run_removeFileIfThere_missing (h : Missing w.volume w.cwd p) :
    (removeFileIfThere p).run o w = (.ok (), w) := by
  rw [run_removeFileIfThere, removeFile_of_missing hp h]
  rfl

omit hp in
theorem run_removeTreeIfThere_missing (h : Missing w.volume w.cwd p) :
    (removeTreeIfThere p).run o w = (.ok (), w) := by
  unfold removeTreeIfThere
  rw [run_ifThere, run_removeTree_error h]
  rfl

end Name

end Action

namespace Source

open Volume PinnedDeps.Action

variable {s : Source} {deps : Path} {o : Outside} {w w' : World} {v : Volume} {cwd top : Location}

/-- The path leads to the directory, whatever stands at the names of the source or below them. -/
def Apart (s : Source) (deps : Path) (cwd top : Location) (v : Volume) : Prop :=
  ∀ u, Only (s.Own top) v u → Opens u cwd deps top

theorem endsInName_of_places (named : s.Named) {p : Path} (hp : p ∈ s.places deps) : p.EndsInName := by
  simp only [places, List.mem_cons, List.not_mem_nil, or_false] at hp
  rcases hp with rfl | rfl | rfl
  · exact Path.endsInName_div deps named.archive
  · exact Path.endsInName_div deps named.src
  · exact Path.endsInName_div deps named.stem

theorem run_clearRemnants_ok : (s.clearRemnants deps).run o w = (.ok (), w') ↔ ∃ w₁ w₂,
    (removeFileIfThere (s.archivePath deps)).run o w = (.ok (), w₁) ∧
      (removeTreeIfThere (s.srcDir deps)).run o w₁ = (.ok (), w₂) ∧
      (removeTreeIfThere (s.unpackedDir deps)).run o w₂ = (.ok (), w') := by
  unfold clearRemnants io
  rw [run_mapError_ok, run_bind_ok]
  constructor
  · rintro ⟨_, w₁, run₁, run⟩
    obtain ⟨_, w₂, run₂, run₃⟩ := run_bind_ok.1 run
    exact ⟨w₁, w₂, run₁, run₂, run₃⟩
  · rintro ⟨w₁, w₂, run₁, run₂, run₃⟩
    exact ⟨(), w₁, run₁, run_bind_ok.2 ⟨(), w₂, run₂, run₃⟩⟩

theorem thins_of_run {a : Action IoError Unit} {r : Except IoError Unit}
    (h : ∀ cwd, Moves cwd Thins a) (run : a.run o w = (r, w')) :
    Thins w.volume w'.volume ∧ w'.cwd = w.cwd := by
  have moved := h w.cwd o w rfl
  rw [run] at moved
  exact ⟨moved.now, moved.cwd⟩

section Named

variable (named : s.Named)
include named

/-- A clearing that goes through has not met anything on its way but what it removes. -/
theorem clearRemnants_aims (run : (s.clearRemnants deps).run o w = (.ok (), w')) :
    ∀ p ∈ s.places deps, Aimed w'.volume w'.cwd p := by
  obtain ⟨w₁, w₂, run₁, run₂, run₃⟩ := run_clearRemnants_ok.1 run
  have first := thins_of_run (fun _ => moves_removeFileIfThere _) run₁
  have second := thins_of_run (fun _ => moves_removeTreeIfThere _) run₂
  have third := thins_of_run (fun _ => moves_removeTreeIfThere _) run₃
  have ends : ∀ p ∈ s.places deps, p.EndsInName := fun p hp => endsInName_of_places named hp
  have archive := (removeFileIfThere_ok_iff (ends _ (by simp [places]))).1 (congrArg Prod.fst run₁)
  have src := (removeTreeIfThere_ok_iff (ends _ (by simp [places]))).1 (congrArg Prod.fst run₂)
  have unpacked := (removeTreeIfThere_ok_iff (ends _ (by simp [places]))).1 (congrArg Prod.fst run₃)
  rw [second.2, first.2] at third
  intro p hp
  simp only [places, List.mem_cons, List.not_mem_nil, or_false] at hp
  rcases hp with rfl | rfl | rfl
  · exact third.2 ▸ ((archive.1.thins first.1).thins second.1).thins third.1
  · exact third.2 ▸ (((first.2 ▸ src.1).thins second.1).thins third.1)
  · exact third.2 ▸ (second.2.trans first.2 ▸ unpacked.1).thins third.1

theorem clearRemnants_misses (run : (s.clearRemnants deps).run o w = (.ok (), w')) :
    ∀ p ∈ s.places deps, Missing w'.volume w'.cwd p := fun p hp =>
  (clearRemnants_aims named run p hp).missing (endsInName_of_places named hp)
    (clearRemnants_vacates run p hp)

theorem run_clearRemnants_missing (h : ∀ p ∈ s.places deps, Missing w.volume w.cwd p) :
    (s.clearRemnants deps).run o w = (.ok (), w) :=
  run_clearRemnants_ok.2 ⟨w, w,
    run_removeFileIfThere_missing (Path.endsInName_div deps named.archive) (h _ (by simp [places])),
    run_removeTreeIfThere_missing (h _ (by simp [places])),
    run_removeTreeIfThere_missing (h _ (by simp [places]))⟩

/-- Clearing goes through unless a directory stands in the place of the archive, or a file in the
place of a tree. -/
theorem clearRemnants_goes (aimed : ∀ p ∈ s.places deps, Aimed w.volume w.cwd p)
    (archive : ∀ l, w.volume.entryAt w.cwd (s.archivePath deps) ≠ .ok (l, .dir))
    (trees : ∀ p ∈ [s.srcDir deps, s.unpackedDir deps], ∀ l f,
      w.volume.entryAt w.cwd p ≠ .ok (l, .file f)) :
    ((s.clearRemnants deps).run o w).1 = .ok () := by
  have ends : ∀ p ∈ s.places deps, p.EndsInName := fun p hp => endsInName_of_places named hp
  have first : ((removeFileIfThere (s.archivePath deps)).run o w).1 = .ok () :=
    (removeFileIfThere_ok_iff (ends _ (by simp [places]))).2 ⟨aimed _ (by simp [places]), archive⟩
  -- a removal neither spoils the way to a tree nor puts a file in its place
  have later : ∀ p ∈ [s.srcDir deps, s.unpackedDir deps], ∀ w', Thins w.volume w'.volume →
      w'.cwd = w.cwd → ((removeTreeIfThere p).run o w').1 = .ok () := by
    intro p hp w' thins same
    have here : p ∈ s.places deps := List.mem_cons_of_mem _ hp
    refine (removeTreeIfThere_ok_iff (ends p here)).2 ?_
    rw [same]
    exact ⟨(aimed p here).thins thins, fun l f seen => trees p hp l f (thins.entryAt seen)⟩
  have thins₁ := moves_removeFileIfThere (s.archivePath deps) o w rfl
  have second := later (s.srcDir deps) (by simp) _ thins₁.now thins₁.cwd
  have thins₂ := thins₁.trans Thins.trans
    (moves_removeTreeIfThere (s.srcDir deps) o _ rfl)
  have third := later (s.unpackedDir deps) (by simp) _ thins₂.now thins₂.cwd
  exact congrArg Prod.fst
    (run_clearRemnants_ok.2 ⟨_, _, Prod.ext first rfl, Prod.ext second rfl, Prod.ext third rfl⟩)

/-- In a directory that takes the names of the source, nothing else stops a clearing. -/
theorem clearRemnants_goes_in (opens : Opens w.volume w.cwd deps top)
    (usable : checkPath (s.archivePath deps) = .ok ())
    (short : (ofText s.archiveName).length ≤ nameLimit)
    (archive : w.volume.lookup (s.archiveAt top) ≠ some .dir)
    (trees : ∀ l ∈ [s.srcAt top, s.unpackedAt top], ∀ f, w.volume.lookup l ≠ some (.file f)) :
    ((s.clearRemnants deps).run o w).1 = .ok () := by
  have src := named.fits usable short ".src" (by decide) (by decide) (by decide)
  have stem := named.fits usable short "" (by decide) (by decide) (by decide)
  rw [String.append_empty] at stem
  have seen {n : String} {x : Entry} {l : Location} (hn : IsName (ofText n))
      (h : w.volume.entryAt w.cwd (deps / n) = .ok (l, x)) :
      w.volume.lookup (ofText n :: top) = some x := by
    obtain ⟨-, -, e, he, rfl, there⟩ := (entryAt_div hn).1 h
    rwa [he.unique opens] at there
  refine clearRemnants_goes named ?_ (fun l h => archive (seen named.archive h)) ?_
  · intro p hp
    simp only [places, List.mem_cons, List.not_mem_nil, or_false] at hp
    rcases hp with rfl | rfl | rfl
    · exact aimed_of_reachName (reachName_eq named.archive usable short opens)
    · exact aimed_of_reachName (reachName_eq named.src src.1 src.2 opens)
    · exact aimed_of_reachName (reachName_eq named.stem stem.1 stem.2 opens)
  · intro p hp l f h
    simp only [List.mem_cons, List.not_mem_nil, or_false] at hp
    rcases hp with rfl | rfl
    · exact trees (s.srcAt top) (by simp) f (seen named.src h)
    · exact trees (s.unpackedAt top) (by simp) f (seen named.stem h)

/-- Once a clearing has gone through, the directory that the path leads to holds nothing of the
source. -/
theorem clearRemnants_empties (run : (s.clearRemnants deps).run o w = (.ok (), w'))
    (opens : Opens w'.volume w'.cwd deps top) :
    (∀ n ∈ s.names, w'.volume.lookup (ofText n :: top) = none) ∧
      (Upright w.volume → s.Absent top w'.volume) := by
  have missing := clearRemnants_misses named run
  have archive := (missing (s.archivePath deps) (by simp [places])).lookup named.archive opens
  refine ⟨fun n hn => ?_, fun upright => ?_⟩
  · simp only [names, List.mem_cons, List.not_mem_nil, or_false] at hn
    rcases hn with rfl | rfl | rfl
    · exact archive.2.2
    · exact ((missing (s.unpackedDir deps) (by simp [places])).lookup named.stem opens).2.2
    · exact ((missing (s.srcDir deps) (by simp [places])).lookup named.src opens).2.2
  · exact (clearRemnants_clears named upright run).absent named archive.1 archive.2.1 opens

/-- A clearing that goes through leaves nothing at the three names, and a second one finds nothing
to do. Whether it goes through or not, nothing goes but what stands at the names or below them, and
nothing new comes. It goes through where the system takes the names, no directory stands in the
place of the archive and no file in the place of a tree. -/
theorem clearRemnants_exact (deps : Path) (o : Outside) (w : World) :
    let run := (s.clearRemnants deps).run o w
    let after := run.2
    (run.1 = .ok () →
      (∀ p ∈ s.places deps, after.volume.entryAt after.cwd p = .error SystemError.noEntry) ∧
      (∀ top, Opens after.volume after.cwd deps top →
        (∀ n ∈ s.names, after.volume.lookup (ofText n :: top) = none) ∧
          (Upright w.volume → s.Absent top after.volume)) ∧
      ∀ o' : Outside, (s.clearRemnants deps).run o' after = (.ok (), after)) ∧
    (∀ top, Opens w.volume w.cwd deps top →
      Moved (Sheds (s.Own top)) w after ∧
      (s.Apart deps w.cwd top w.volume → Opens after.volume after.cwd deps top) ∧
      (checkPath (s.archivePath deps) = .ok () → (ofText s.archiveName).length ≤ nameLimit →
        w.volume.lookup (s.archiveAt top) ≠ some .dir →
        (∀ l ∈ [s.srcAt top, s.unpackedAt top], ∀ f, w.volume.lookup l ≠ some (.file f)) →
        run.1 = .ok ())) ∧
    ((∀ top, ¬ Opens w.volume w.cwd deps top) →
      ∀ l, after.volume.lookup l = w.volume.lookup l) := by
  intro run after
  have trimmed : ∀ top, Moved (Trims (s.Own top) w.cwd deps top) w after :=
    fun top => trims_clearRemnants named o w rfl
  refine ⟨fun ok => ?_, fun top opens => ⟨?_, fun apart => ?_, ?_⟩, fun shut l => ?_⟩
  · have went : (s.clearRemnants deps).run o w = (.ok (), after) := Prod.ext ok rfl
    have missing := clearRemnants_misses named went
    exact ⟨missing, fun top opens => clearRemnants_empties named went opens,
      fun o' => run_clearRemnants_missing named missing⟩
  · exact (trimmed top).imp fun u hu => hu opens.led
  · rw [(trimmed top).cwd]
    exact apart _ ((trimmed top).now opens.led).1
  · exact clearRemnants_goes_in named opens
  · -- a path that leads nowhere leads to nothing but the place itself
    exact ((trimmed l).now fun e he => absurd he (shut e)).1 l fun own => own.inside.2 rfl

end Named

section Littered

def around (entries : List (Location × Entry)) : World := ⟨⟨⟨entries⟩, [], "/"⟩, [], [], []⟩

/-- A directory with what an interrupted acquisition may have left, and links to a file outside. -/
def littered : World :=
  around [([ofText "keep"], .file ⟨[1], plainMode, none⟩),
    ([ofText "d"], .dir),
    ([ofText "demo-0.1.0.tar.gz", ofText "d"], .link (ofText "/keep")),
    ([ofText "demo-0.1.0.src", ofText "d"], .dir),
    ([ofText "out", ofText "demo-0.1.0.src", ofText "d"], .link (ofText "/keep")),
    ([ofText "demo-0.1.0", ofText "d"], .link (ofText "nowhere"))]

theorem named_demo : demo.Named := ⟨by decide, by decide⟩

theorem opens_d {u : Volume} (h : u.lookup [ofText "d"] = some .dir) :
    Opens u [] (Path.ofText "/d") [ofText "d"] :=
  ⟨0, by decide, .enter ⟨by decide, by decide, by decide⟩ h .done⟩

/-- All of it goes, and the file that it was linked to stays. -/
theorem clearRemnants_exact_littered :
    let after := ((demo.clearRemnants "/d").run crowdedOutside littered).2
    demo.Named ∧ Opens littered.volume [] "/d" [ofText "d"] ∧
      demo.Absent [ofText "d"] after.volume ∧
      after.volume.lookup [ofText "keep"] = some (.file ⟨[1], plainMode, none⟩) := by
  intro after
  have opens : Opens littered.volume [] "/d" [ofText "d"] := opens_d rfl
  obtain ⟨ends, opened, -⟩ := clearRemnants_exact named_demo "/d" crowdedOutside littered
  obtain ⟨moved, stays, goes⟩ := opened _ opens
  have src : littered.volume.lookup (demo.srcAt [ofText "d"]) = some .dir := by decide
  have unpacked : littered.volume.lookup (demo.unpackedAt [ofText "d"]) =
      some (.link (ofText "nowhere")) := by decide
  have ok := goes (checkPath_ok.2 (by decide)) (by decide) (by decide)
    (by simp [src, unpacked])
  have still := stays fun u only => opens_d ((only _ (by decide)).trans rfl)
  have upright : Upright littered.volume := upright_of_entries (by decide)
  exact ⟨named_demo, opens, ((ends ok).2.1 _ still).2 upright, moved.now.1 _ (by decide)⟩

/-- A name that the system refuses stops the clearing although nothing is there; and a path through
one of the trees no longer leads to the directory when it comes to the other. -/
theorem clearRemnants_inexact :
    let long : Source := ⟨String.ofList (List.replicate 250 'a'), "1", "", none⟩
    let lone := around [([ofText "d"], .dir)]
    let trees := around [([ofText "d"], .dir), ([ofText "demo-0.1.0.src", ofText "d"], .dir),
      ([ofText "demo-0.1.0", ofText "d"], .dir)]
    let cleared := (demo.clearRemnants "/d/demo-0.1.0.src/..").run crowdedOutside trees
    (long.Named ∧ Opens lone.volume [] "/d" [ofText "d"] ∧
      (∀ n ∈ long.names, lone.volume.lookup [ofText n, ofText "d"] = none) ∧
      ((long.clearRemnants "/d").run crowdedOutside lone).1.isOk = false) ∧
    demo.Named ∧ Opens trees.volume [] "/d/demo-0.1.0.src/.." [ofText "d"] ∧
      cleared.1.isOk = true ∧
      cleared.2.volume.lookup [ofText "demo-0.1.0", ofText "d"] = some .dir := by
  refine ⟨⟨⟨by decide +kernel, by decide⟩, opens_d rfl, by decide +kernel, by decide +kernel⟩, named_demo, ?_,
    by decide +kernel, by decide +kernel⟩
  exact ⟨0, by decide, .enter ⟨by decide, by decide, by decide⟩ rfl
    (.enter ⟨by decide, by decide, by decide⟩ rfl (.up .done))⟩

end Littered

end Source
end PinnedDeps
