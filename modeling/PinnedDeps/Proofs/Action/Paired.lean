import PinnedDeps.Proofs.Action.Removal
import PinnedDeps.Proofs.Action.Writing
import PinnedDeps.Proofs.Volume.Sharing

/-!
Two runs of one action, from volumes that agree at some places in a directory. Removals and writings
at these places come to the same result in both, whatever else is different.
-/
namespace PinnedDeps.Action

open Bytes (ofText)
open Volume

variable {ε ε' α β : Type} {o : Outside} {w u w' u' : World} {cwd top e : Location} {p : Path} {n : String}
  {P : Location → Prop} {T R Q : World → World → Prop}

/-- From worlds in one relation the action ends in the same way, in worlds in another, as long as the
machine has no limits that could tell them apart. -/
def Paired (T Q : World → World → Prop) (a : Action ε α) : Prop :=
  ∀ (o : Outside) w u, T w u → (a.run o u).1 = (a.run o w).1 ∧ Q (a.run o w).2 (a.run o u).2

theorem paired_bind {a : Action ε α} {f : α → Action ε β} (h : Paired T R a)
    (stop : ∀ w u, R w u → Q w u) (g : ∀ x, Paired R Q (f x)) : Paired T Q (a >>= f) := by
  intro o w u related
  obtain ⟨same, after⟩ := h o w u related
  rw [run_bind, run_bind]
  rcases hw : a.run o w with ⟨x, w₁⟩
  rcases hu : a.run o u with ⟨y, u₁⟩
  rw [hw, hu] at same after
  obtain rfl : y = x := same
  cases y with
  | ok x => exact g x o w₁ u₁ after
  | error e => exact ⟨rfl, stop _ _ after⟩

theorem paired_mapError (f : ε → ε') {a : Action ε α} (h : Paired T Q a) :
    Paired T Q (a.mapError f) := by
  intro o w u related
  obtain ⟨same, after⟩ := h o w u related
  rw [run_mapError, run_mapError, same]
  exact ⟨rfl, after⟩

/-- Two worlds with the same path to a directory, which agree at some places in it. -/
structure Level (P : Location → Prop) (p : Path) (cwd top : Location) (w u : World) : Prop where
  here : w.cwd = cwd
  here' : u.cwd = cwd
  fixed : Fixed w.volume cwd p top
  fixed' : Fixed u.volume cwd p top
  agree : AgreeOn P w.volume u.volume

theorem Level.opens (h : Level P p cwd top w u) : Opens w.volume w.cwd p top := h.here ▸ h.fixed.opens

theorem Level.opens' (h : Level P p cwd top w u) : Opens u.volume u.cwd p top := h.here' ▸ h.fixed'.opens

theorem Level.next (h : Level P p cwd top w u) (hw : Moved (Within top) w w')
    (hu : Moved (Within top) u u') (agree : AgreeOn P w'.volume u'.volume) :
    Level P p cwd top w' u' :=
  ⟨hw.cwd.trans h.here, hu.cwd.trans h.here', h.fixed.within hw.now, h.fixed'.within hu.now, agree⟩

/-- The same name in the directory has been erased in both. -/
theorem Level.erase (h : Level P p cwd top w u) (m : Bytes) : Level P p cwd top
    (w.set (w.volume.erase (m :: top))) (u.set (u.volume.erase (m :: top))) :=
  h.next (.set (within_erase _ m top)) (.set (within_erase _ m top)) (h.agree.erase _)

section Name

variable (hn : IsName (ofText n)) (at_ : P (ofText n :: top))
include hn at_

theorem paired_removeFile :
    Paired (Level P p cwd top) (Level P p cwd top) (change fun v cwd => v.removeFile cwd (p / n)) := by
  intro o w u level
  rw [run_change, run_change]
  rcases usable_or_refused hn p with ⟨hc, hl⟩ | ⟨x, refused⟩
  · rw [removeFile_eq hn hc hl level.opens, removeFile_eq hn hc hl level.opens', level.agree _ at_]
    cases w.volume.lookup (ofText n :: top) with
    | none => exact ⟨rfl, level⟩
    | some x =>
      cases x with
      | dir => exact ⟨rfl, level⟩
      | file f => exact ⟨rfl, level.erase _⟩
      | link t => exact ⟨rfl, level.erase _⟩
  · have stops : ∀ {v cwd}, Opens v cwd p top → v.removeFile cwd (p / n) = .error x := by
      intro v cwd opens
      unfold removeFile
      rw [(refused v cwd top opens).1]
      rfl
    rw [stops level.opens, stops level.opens']
    exact ⟨rfl, level⟩

end Name

theorem paired_ifThere {a : Action IoError Unit} (h : Paired T Q a) : Paired T Q (ifThere a) := by
  intro o w u related
  obtain ⟨same, after⟩ := h o w u related
  rw [run_ifThere, run_ifThere]
  rcases hw : a.run o w with ⟨x, w₁⟩
  rcases hu : a.run o u with ⟨y, u₁⟩
  rw [hw, hu] at same after
  obtain rfl : y = x := same
  cases y <;> exact ⟨rfl, after⟩

section Name

variable (hn : IsName (ofText n)) (at_ : P (ofText n :: top))
include hn at_

theorem paired_removeFileIfThere :
    Paired (Level P p cwd top) (Level P p cwd top) (removeFileIfThere (p / n)) := by
  intro o w u level
  rw [run_removeFileIfThere_of_permitted rfl, run_removeFileIfThere_of_permitted rfl]
  exact paired_ifThere (paired_removeFile hn at_) o w u level

theorem paired_removeTreeIfThere :
    Paired (Level P p cwd top) (Level P p cwd top) (removeTreeIfThere (p / n)) := by
  intro o w u level
  have same := level.agree _ at_
  rcases usable_or_refused hn p with ⟨hc, hl⟩ | ⟨x, refused⟩
  · have seen := entryAt_eq hn hc hl level.opens
    have seen' := entryAt_eq hn hc hl level.opens'
    unfold found Landing.location at seen seen'
    simp only [same] at seen'
    cases hx : w.volume.lookup (ofText n :: top) with
    | none =>
      rw [hx] at seen seen'
      unfold removeTreeIfThere
      rw [run_ifThere, run_ifThere, run_removeTree_error seen, run_removeTree_error seen']
      exact ⟨rfl, level⟩
    | some x =>
      rw [hx] at seen seen' same
      cases x with
      | file f =>
        unfold removeTreeIfThere
        rw [run_ifThere, run_ifThere, run_removeTree_file seen, run_removeTree_file seen']
        exact ⟨rfl, level⟩
      | link t =>
        have same : ∀ {w : World}, w.volume.entryAt w.cwd (p / n) = .ok (ofText n :: top, .link t) →
            (removeTreeIfThere (p / n)).run o w = (removeFileIfThere (p / n)).run o w := by
          intro w seen
          rw [run_removeFileIfThere_of_permitted rfl]
          unfold removeTreeIfThere
          rw [run_ifThere, run_ifThere, run_removeTree_link seen]
        rw [same seen, same seen']
        exact paired_removeFileIfThere hn at_ o w u level
      | dir =>
        obtain ⟨w₁, run, moved, gone⟩ := run_removeTreeIfThere_name (o := o) hn hc hl
          (level.here ▸ level.fixed) (.inr hx)
        obtain ⟨u₁, run', moved', gone'⟩ := run_removeTreeIfThere_name (o := o) hn hc hl
          (level.here' ▸ level.fixed') (.inr same)
        rw [run, run']
        refine ⟨rfl, level.next (moved.imp fun _ h => h.within) (moved'.imp fun _ h => h.within) ?_⟩
        intro l hl
        by_cases below : Below l (ofText n :: top)
        · rw [gone l below, gone' l below]
        · rw [moved.now.outside l below, moved'.now.outside l below]
          exact level.agree l hl
  · have stops : ∀ {w : World}, Opens w.volume w.cwd p top →
        (removeTreeIfThere (p / n)).run o w = (if x = .system .noEntry then .ok () else .error x, w) := by
      intro w opens
      have missing : w.volume.entryAt w.cwd (p / n) = .error x := by
        unfold entryAt
        rw [(refused _ _ top opens).2]
        rfl
      unfold removeTreeIfThere
      rw [run_ifThere, run_removeTree_error missing]
    rw [stops level.opens, stops level.opens']
    exact ⟨rfl, level⟩

end Name

/-- A file that is new in both worlds is written in both, or in neither and for the same reason. -/
theorem run_writeFile_both {b : Bytes} (hn : IsName (ofText n)) (hw : Opens w.volume w.cwd p e)
    (hu : Opens u.volume u.cwd p e) (free : Vacant w.volume w.cwd (p / n))
    (free' : Vacant u.volume u.cwd (p / n)) :
    (∃ x, (writeFile (p / n) b).run o w = (.error x, w) ∧ (writeFile (p / n) b).run o u = (.error x, u)) ∨
      ∃ w' u', (writeFile (p / n) b).run o w = (.ok (), w') ∧
        (writeFile (p / n) b).run o u = (.ok (), u') ∧
        (∀ j, w'.volume.lookup j = if j = ofText n :: e then
          some (.file ⟨b, plainMode, none⟩) else w.volume.lookup j) ∧
        ∀ j, u'.volume.lookup j = if j = ofText n :: e then
          some (.file ⟨b, plainMode, none⟩) else u.volume.lookup j := by
  rcases usable_or_refused hn p with ⟨hc, hl⟩ | ⟨x, refused⟩
  · obtain ⟨w', run, -, look⟩ := run_writeFile_new (o := o) (b := b) hn hc hl hw
      (free.lookup hn hc hl hw)
    obtain ⟨u', run', -, look'⟩ := run_writeFile_new (o := o) (b := b) hn hc hl hu
      (free'.lookup hn hc hl hu)
    exact .inr ⟨w', u', run, run', look, look'⟩
  · have stops : ∀ {w : World}, Opens w.volume w.cwd p e →
        (writeFile (p / n) b).run o w = (.error x, w) := by
      intro w opens
      have closed : w.volume.openFile w.cwd (p / n) plainMode false = .error x := by
        unfold openFile reachFile
        rw [Path.endsInSlash_div p hn, (refused _ _ e opens).2]
        rfl
      rw [run_writeFile, closed]
    exact .inl ⟨x, stops hw, stops hu⟩

end PinnedDeps.Action
