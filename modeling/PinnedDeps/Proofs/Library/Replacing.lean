import PinnedDeps.Proofs.Library.Built
import PinnedDeps.Proofs.Library.Copying

/-!
Copies that fail. The old entry is removed before the new one is made, and is not put back. So a copy
that fails has changed nothing, or it has taken away the one entry that was to be replaced, or it has left
a first part of the new one. Which of these happens, and when, is said for every machine, with what it
refuses and where its writing ends.
-/
namespace PinnedDeps

open PinnedDeps.Action Volume
open Bytes (ofText)

variable {m : Machine} {o : Outside} {w w' w₁ : World} {s : View} {v u : Volume} {cwd l : Location}
  {src dst : Path} {x : Entry} {f : File} {n : Nat}

/-- The view with another volume. -/
def View.holding (s : View) (u : Volume) : View := { s with volume := u }

/-- The path ends in a name of a directory that is there, whatever stands at it. -/
structure Names (v : Volume) (cwd : Location) (dst : Path) (l : Location) : Prop where
  noSlash : dst.endsInSlash = false
  named : ∃ d n, l = n :: d ∧ reachName v cwd dst = .ok (.name d n)

/-- The path names a file or a link, which can be removed. -/
structure Removable (v : Volume) (cwd : Location) (dst : Path) (l : Location) : Prop
    extends Names v cwd dst l where
  there : ∃ y, v.lookup l = some y ∧ y ≠ .dir

theorem Removable.removeFile (h : Removable v cwd dst l) : v.removeFile cwd dst = .ok (v.erase l) := by
  obtain ⟨d, n, rfl, hL⟩ := h.named
  obtain ⟨y, hy, notDir⟩ := h.there
  unfold Volume.removeFile
  rw [hL]
  simp only [bind, Except.bind, hy]
  cases y with
  | dir => exact absurd rfl notDir
  | file f => simp [h.noSlash]
  | link t => simp [h.noSlash]

theorem removable_of_removeFile (h : v.removeFile cwd dst = .ok u) :
    ∃ l, Removable v cwd dst l ∧ u = v.erase l := by
  obtain ⟨d, n, y, hL, noSlash, hy, notDir, rfl⟩ := removeFile_ok h
  exact ⟨n :: d, ⟨⟨noSlash, ⟨d, n, rfl, hL⟩⟩, y, hy, notDir⟩, rfl⟩

/-- The entry at a path can be looked at. -/
def Shows (m : Machine) (s : View) (src : Path) (x : Entry) : Prop :=
  m.refuses (.inspect src) s = none ∧ ∃ k, s.volume.entryAt s.cwd src = .ok (k, x)

/-- What a path named has been removed, or it named nothing. -/
inductive Cleared (m : Machine) (s : View) (dst : Path) : Volume → Prop
  | removed {l : Location} (permitted : m.refuses (.remove dst) s = none)
      (removable : Removable s.volume s.cwd dst l) : Cleared m s dst (s.volume.erase l)
  | missing (permitted : m.refuses (.remove dst) s = none)
      (misses : s.volume.removeFile s.cwd dst = .error SystemError.noEntry) : Cleared m s dst s.volume

/-- Why a copy of an entry is not even begun where nothing stands: the path ends in no name of a directory
that is there; the entry is a link, and its text cannot be used or the link is refused; or it is no link,
and the path does not lead to a file, or reading that file or making another one is refused. -/
inductive Stuck (m : Machine) (s : View) (src dst : Path) : Entry → Prop
  | place {y} : (∀ l, ¬ Names s.volume s.cwd dst l) → Stuck m s src dst y
  | text {t} : checkPath ⟨t⟩ ≠ .ok () → Stuck m s src dst (.link t)
  | unlinkable {t e} : m.refuses (.link dst) s = some e → Stuck m s src dst (.link t)
  | source {y} : (∀ t, y ≠ .link t) → (∀ l f, s.volume.stat s.cwd src ≠ .ok (l, .file f)) →
      Stuck m s src dst y
  | unreadable {y e} : (∀ t, y ≠ .link t) → m.refuses (.read src) s = some e → Stuck m s src dst y
  | unwritable {y e} : (∀ t, y ≠ .link t) → m.refuses (.write dst) s = some e → Stuck m s src dst y

/-- The empty file that the copy of a file begins with. -/
def View.begun (s : View) (l : Location) (f : File) : View :=
  s.holding (s.volume.put l (.file ⟨[], f.mode, none⟩))

/-- Begun at a location, the copy of a file ends after so many bytes: before the first if its permission
bits are refused, and otherwise where its writing is cut short. -/
inductive Breaks (m : Machine) (s : View) (dst : Path) (l : Location) (f : File) : Nat → Prop
  | mode {e} : m.refuses (.setMode dst) (s.begun l f) = some e → Breaks m s dst l f 0
  | write {n : Nat} {e : SystemError} : m.refuses (.setMode dst) (s.begun l f) = none →
      m.cutsShort l f.bytes (s.holding ((s.begun l f).volume.setMode l f.mode)) = some (n, e) →
      Breaks m s dst l f n

/-- The first bytes of a file, in a new file where nothing stood, and nothing else that is new. -/
def Part (u : Volume) (l : Location) (f : File) (n : Nat) (u' : Volume) : Prop :=
  ∀ j, u'.lookup j = if j = l then some (.file ⟨f.bytes.take n, f.mode, none⟩) else u.lookup j

/-- What a copy that fails leaves: everything as it was, if the entry to be copied is not seen or the one
to be replaced is not cleared away; nothing in the place of the copy, if it cannot even be begun; and a
first part of it otherwise. -/
inductive Leaves (m : Machine) (s : View) (src dst : Path) : Volume → Prop
  | unseen (unseen : ∀ x, ¬ Shows m s src x) : Leaves m s src dst s.volume
  | kept (kept : ∀ u, ¬ Cleared m s dst u) : Leaves m s src dst s.volume
  | stuck {x : Entry} {u : Volume} (seen : Shows m s src x) (cleared : Cleared m s dst u)
      (stuck : Stuck m (s.holding u) src dst x) : Leaves m s src dst u
  | part {x : Entry} {u u' : Volume} {k l : Location} {f : File} {n : Nat}
      (seen : Shows m s src x) (cleared : Cleared m s dst u)
      (able : ¬ Stuck m (s.holding u) src dst x) (notLink : ∀ t, x ≠ .link t)
      (read : u.stat s.cwd src = .ok (k, .file f)) (names : Names u s.cwd dst l)
      (breaks : Breaks m (s.holding u) dst l f n) (part : Part u l f n u') :
      Leaves m s src dst u'

theorem Names.unique {l' : Location} (h : Names v cwd dst l) (g : Names v cwd dst l') : l = l' := by
  obtain ⟨d, n, rfl, hL⟩ := h.named
  obtain ⟨d', n', rfl, hL'⟩ := g.named
  rw [hL] at hL'
  cases hL'
  rfl

theorem Names.ne_nil (h : Names v cwd dst l) : l ≠ [] := by
  obtain ⟨d, n, rfl, -⟩ := h.named
  exact List.cons_ne_nil n d

section Vacant

variable (vacant : Vacant u cwd dst)
include vacant

theorem Names.free (h : Names u cwd dst l) : u.lookup l = none := by
  obtain ⟨d, n, rfl, hL⟩ := h.named
  cases hx : u.lookup (n :: d) with
  | none => rfl
  | some y =>
    have seen : u.entryAt cwd dst = .ok (n :: d, y) :=
      entryAt_ok.2 ⟨_, (reach_eq_reachName h.noSlash).trans hL, rfl, hx⟩
    unfold Vacant at vacant
    rw [seen] at vacant
    cases vacant

theorem makeLink_iff {t : Bytes} : (∃ u', u.makeLink cwd t dst = .ok u') ↔
    checkPath ⟨t⟩ = .ok () ∧ ∃ l, Names u cwd dst l := by
  constructor
  · rintro ⟨u', made⟩
    obtain ⟨d, n, hL, noSlash, -⟩ := makeLink_ok made
    unfold makeLink at made
    obtain ⟨_, usable, -⟩ := bind_ok.1 made
    exact ⟨usable, n :: d, noSlash, d, n, rfl, hL⟩
  · rintro ⟨usable, l, names⟩
    have none := names.free vacant
    obtain ⟨d, n, rfl, hL⟩ := names.named
    refine ⟨u.put (n :: d) (.link t), ?_⟩
    unfold makeLink
    rw [usable, hL]
    simp [bind, Except.bind, none, names.noSlash]

theorem Names.openFile (h : Names u cwd dst l) (mode : Nat) :
    u.openFile cwd dst mode false = .ok (l, u.put l (.file ⟨[], mode, none⟩)) := by
  have none := h.free vacant
  obtain ⟨d, n, rfl, hL⟩ := h.named
  obtain ⟨usable, walked⟩ := reachName_ok.1 hL
  have reached : reach u cwd dst true = .ok (.name d n) := by
    refine reach_ok.2 ⟨usable, ?_⟩
    rw [Path.strides_eq h.noSlash]
    exact walked.followed fun t ht => by
      rw [show u.lookup (Landing.location (.name d n)) = _ from none] at ht
      cases ht
  unfold Volume.openFile reachFile
  rw [h.noSlash, if_neg Bool.false_ne_true, reached]
  simp [bind, Except.bind, none]

omit vacant in
theorem names_of_openFile {mode : Nat} {y : Location × Volume}
    (opened : u.openFile cwd dst mode false = .ok y) : ∃ l, Names u cwd dst l := by
  obtain ⟨l, u'⟩ := y
  obtain ⟨d, n, -, noSlash, hL, -⟩ := openFile_ok opened
  obtain ⟨usable, walked⟩ := reach_ok.1 hL
  rw [Path.strides_eq noSlash] at walked
  obtain ⟨b, z, walked⟩ := walked.unfollowed
  exact ⟨z :: b, noSlash, b, z, rfl, reachName_ok.2 ⟨usable, walked⟩⟩

end Vacant

theorem Cleared.unique {u' : Volume} (h : Cleared m s dst u) (g : Cleared m s dst u') : u = u' := by
  cases h with
  | removed _ removable =>
    cases g with
    | removed _ removable' => rw [removable.toNames.unique removable'.toNames]
    | missing _ misses =>
      rw [removable.removeFile] at misses
      cases misses
  | missing _ misses =>
    cases g with
    | removed _ removable =>
      rw [removable.removeFile] at misses
      cases misses
    | missing => rfl

theorem of_holding (h : w₁.toView = w.toView.holding u) : w₁.cwd = w.cwd ∧ w₁.volume = u := by
  have cwd := congrArg View.cwd h
  have volume := congrArg View.volume h
  exact ⟨cwd, volume⟩

theorem Breaks.unique {n' : Nat} (h : Breaks m s dst l f n) (g : Breaks m s dst l f n') : n = n' := by
  cases h with
  | mode refused =>
    cases g with
    | mode => rfl
    | write permitted => cases refused.symm.trans permitted
  | write permitted cut =>
    cases g with
    | mode refused => cases refused.symm.trans permitted
    | write _ cut' =>
      cases cut.symm.trans cut'
      rfl

/-- What is to be replaced is cleared away, or nothing is changed. -/
theorem removeFileIfThere_clears (m : Machine) (dst : Path) (w : World) :
    (∃ w₁, (removeFileIfThere dst).run m w = (.ok (), w₁) ∧
        w₁.toView = w.toView.holding w₁.volume ∧ Cleared m w.toView dst w₁.volume) ∨
      (∃ e, (removeFileIfThere dst).run m w = (.error e, w)) ∧ ∀ u, ¬ Cleared m w.toView dst u := by
  cases refused : m.refuses (.remove dst) w.toView with
  | some e =>
    refine .inr ⟨⟨_, run_removeFileIfThere_of_refused refused⟩, fun u cleared => ?_⟩
    cases cleared with
    | removed permitted => cases refused.symm.trans permitted
    | missing permitted => cases refused.symm.trans permitted
  | none =>
    rw [run_removeFileIfThere_of_permitted refused, run_ifThere, run_change]
    cases hv : w.volume.removeFile w.cwd dst with
    | ok v =>
      obtain ⟨l, removable, rfl⟩ := removable_of_removeFile hv
      exact .inl ⟨_, rfl, rfl, .removed refused removable⟩
    | error e =>
      by_cases missing : e = .system .noEntry
      · subst missing
        exact .inl ⟨w, rfl, rfl, .missing refused hv⟩
      · refine .inr ⟨⟨e, by simp only [if_neg missing]⟩, fun u cleared => ?_⟩
        cases cleared with
        | removed _ removable => cases hv.symm.trans removable.removeFile
        | missing _ misses => exact missing (Except.error.inj (hv.symm.trans misses))

/-- Making the copy, once nothing stands in its place. -/
def putEntry (src dst : Path) : Entry → Action IoError Unit
  | .link t => do
    permit (.link dst)
    change fun v cwd => v.makeLink cwd t dst
  | _ => copyFile src dst

/-- How the making of a copy ends where nothing stands. -/
inductive Put (m : Machine) (w : World) (src dst : Path) (x : Entry) : Except IoError Unit → World → Prop
  | stuck {e} (stuck : Stuck m w.toView src dst x) : Put m w src dst x (.error e) w
  | part {e} {w' : World} {k l : Location} {f : File} {n : Nat} (able : ¬ Stuck m w.toView src dst x)
      (notLink : ∀ t, x ≠ .link t) (read : w.volume.stat w.cwd src = .ok (k, .file f))
      (names : Names w.volume w.cwd dst l) (breaks : Breaks m w.toView dst l f n) (cwd : w'.cwd = w.cwd)
      (part : Part w.volume l f n w'.volume) : Put m w src dst x (.error e) w'
  | made {w' : World} (able : ¬ Stuck m w.toView src dst x)
      (whole : (∀ t, x ≠ .link t) → ∀ k l f n, w.volume.stat w.cwd src = .ok (k, .file f) →
        Names w.volume w.cwd dst l → ¬ Breaks m w.toView dst l f n) : Put m w src dst x (.ok ()) w'

theorem put_link {t : Bytes} (vacant : Vacant w.volume w.cwd dst) :
    Put m w src dst (.link t) ((putEntry src dst (.link t)).run m w).1
      ((putEntry src dst (.link t)).run m w).2 := by
  unfold putEntry
  rw [run_permitted]
  cases refused : m.refuses (.link dst) w.toView with
  | some e => exact .stuck (.unlinkable refused)
  | none =>
    simp only
    rw [run_change]
    cases made : w.volume.makeLink w.cwd t dst with
    | error e =>
      refine .stuck (Classical.byContradiction fun able => ?_)
      have usable : checkPath ⟨t⟩ = .ok () := Classical.byContradiction fun bad => able (.text bad)
      have named : ∃ l, Names w.volume w.cwd dst l :=
        Classical.byContradiction fun none => able (.place fun l names => none ⟨l, names⟩)
      obtain ⟨u', hu⟩ := (makeLink_iff vacant).2 ⟨usable, named⟩
      cases made.symm.trans hu
    | ok u' =>
      obtain ⟨usable, l, names⟩ := (makeLink_iff vacant).1 ⟨u', made⟩
      refine .made (fun stuck => ?_) fun notLink => absurd rfl (notLink t)
      cases stuck with
      | place none => exact none l names
      | text bad => exact bad usable
      | unlinkable refused' => cases refused.symm.trans refused'
      | source notLink => exact notLink t rfl
      | unreadable notLink => exact notLink t rfl
      | unwritable notLink => exact notLink t rfl

/-- Once its file has been opened, a copy is made or breaks off. -/
theorem put_filled {k : Location} (able : ¬ Stuck m w.toView src dst x) (notLink : ∀ t, x ≠ .link t)
    (read : w.volume.stat w.cwd src = .ok (k, .file f)) (names : Names w.volume w.cwd dst l) :
    let filled := (fillCopy dst f l).run m (w.set (w.toView.begun l f).volume)
    Put m w src dst x filled.1 filled.2 := by
  intro filled
  have made := lookup_put_if w.volume names.ne_nil (.file ⟨[], f.mode, none⟩)
  have sole : ∀ {k' l' f' n'}, w.volume.stat w.cwd src = .ok (k', .file f') →
      Names w.volume w.cwd dst l' → Breaks m w.toView dst l' f' n' → Breaks m w.toView dst l f n' := by
    intro k' l' f' n' read' names' breaks
    cases read.symm.trans read'
    rwa [← names'.unique names]
  show Put m w src dst x ((fillCopy dst f l).run m _).1 ((fillCopy dst f l).run m _).2
  rw [run_fillCopy]
  cases unset : m.refuses (.setMode dst) (w.toView.begun l f) with
  | some e =>
    rw [show m.refuses _ (World.toView _) = _ from unset]
    exact .part able notLink read names (.mode unset) rfl made
  | none =>
    rw [show m.refuses _ (World.toView _) = _ from unset]
    simp only
    rw [run_writeBytes]
    cases cut : m.cutsShort l f.bytes
        (w.toView.holding ((w.toView.begun l f).volume.setMode l f.mode)) with
    | some e =>
      obtain ⟨n, e⟩ := e
      rw [show m.cutsShort _ _ (World.toView _) = _ from cut]
      exact .part able notLink read names (.write unset cut) rfl (lookup_written _ _ names.ne_nil _)
    | none =>
      rw [show m.cutsShort _ _ (World.toView _) = _ from cut]
      refine .made able fun _ k' l' f' n' read' names' breaks => ?_
      cases sole read' names' breaks with
      | mode refused => cases unset.symm.trans refused
      | write _ short => cases cut.symm.trans short

theorem put_file (notLink : ∀ t, x ≠ .link t) (vacant : Vacant w.volume w.cwd dst) :
    Put m w src dst x ((copyFile src dst).run m w).1 ((copyFile src dst).run m w).2 := by
  rw [run_copyFile]
  cases unread : m.refuses (.read src) w.toView with
  | some e => exact .stuck (.unreadable notLink unread)
  | none =>
    cases seen : w.volume.stat w.cwd src with
    | error e => exact .stuck (.source notLink fun l f h => by cases seen.symm.trans h)
    | ok y =>
      obtain ⟨k, y⟩ := y
      cases y with
      | dir => exact .stuck (.source notLink fun l f h => by cases seen.symm.trans h)
      | link t => exact .stuck (.source notLink fun l f h => by cases seen.symm.trans h)
      | file f =>
        simp only
        rw [run_permitted]
        cases unwritten : m.refuses (.write dst) w.toView with
        | some e => exact .stuck (.unwritable notLink unwritten)
        | none =>
          simp only
          rw [run_bind, run_changeAt]
          by_cases named : ∃ l, Names w.volume w.cwd dst l
          · obtain ⟨l, names⟩ := named
            have able : ¬ Stuck m w.toView src dst x := by
              intro stuck
              cases stuck with
              | place none => exact none l names
              | text => exact notLink _ rfl
              | unlinkable => exact notLink _ rfl
              | source _ none => exact none k f seen
              | unreadable _ refused => cases unread.symm.trans refused
              | unwritable _ refused => cases unwritten.symm.trans refused
            rw [names.openFile vacant]
            exact put_filled able notLink seen names
          · cases opened : w.volume.openFile w.cwd dst f.mode false with
            | error e => exact .stuck (.place fun l names => named ⟨l, names⟩)
            | ok y => exact absurd (names_of_openFile opened) named

theorem putEntry_puts (m : Machine) (src : Path) (x : Entry) (vacant : Vacant w.volume w.cwd dst) :
    Put m w src dst x ((putEntry src dst x).run m w).1 ((putEntry src dst x).run m w).2 := by
  cases x with
  | dir => exact put_file nofun vacant
  | file f => exact put_file nofun vacant
  | link t => exact put_link vacant

theorem run_replaceEntry_seen (seen : Shows m w.toView src x) : (replaceEntry src dst).run m w =
    (removeFileIfThere dst >>= fun _ => putEntry src dst x).run m w := by
  obtain ⟨permitted, k, seen⟩ := seen
  unfold replaceEntry
  rw [run_permitted, permitted]
  simp only
  rw [run_bind, run_ask, seen]
  cases x <;> rfl

theorem run_replaceEntry_unseen (dst : Path) (unseen : ∀ x, ¬ Shows m w.toView src x) :
    ∃ e, (replaceEntry src dst).run m w = (.error e, w) := by
  unfold replaceEntry
  rw [run_permitted]
  cases refused : m.refuses (.inspect src) w.toView with
  | some e => exact ⟨_, rfl⟩
  | none =>
    simp only
    rw [run_bind, run_ask]
    cases seen : w.volume.entryAt w.cwd src with
    | error e => exact ⟨e, rfl⟩
    | ok y => exact absurd ⟨refused, y.1, seen⟩ (unseen y.2)

/-- A copy that has been made is that of an entry that could be looked at, in a place that was cleared. -/
theorem replaceEntry_ok (run : (replaceEntry src dst).run m w = (.ok (), w')) :
    ∃ x w₁, Shows m w.toView src x ∧ (removeFileIfThere dst).run m w = (.ok (), w₁) ∧
      (putEntry src dst x).run m w₁ = (.ok (), w') := by
  by_cases seen : ∃ x, Shows m w.toView src x
  · obtain ⟨x, seen⟩ := seen
    rw [run_replaceEntry_seen seen] at run
    obtain ⟨_, w₁, cleared, put⟩ := run_bind_ok.1 run
    exact ⟨x, w₁, seen, cleared, put⟩
  · obtain ⟨e, failed⟩ := run_replaceEntry_unseen dst fun x h => seen ⟨x, h⟩
    cases failed.symm.trans run

theorem replaceEntry_leaves {e : IoError} (failed : (replaceEntry src dst).run m w = (.error e, w')) :
    w'.cwd = w.cwd ∧ Leaves m w.toView src dst w'.volume := by
  by_cases seen : ∃ x, Shows m w.toView src x
  · obtain ⟨x, seen⟩ := seen
    rw [run_replaceEntry_seen seen] at failed
    rcases removeFileIfThere_clears m dst w with ⟨w₁, clear, view, cleared⟩ | ⟨⟨x, kept⟩, none⟩
    · have put := putEntry_puts m src x (removeFileIfThere_vacates clear)
      rw [run_bind_of_ok clear] at failed
      rw [failed] at put
      have cwd := (of_holding view).1
      cases put with
      | stuck stuck =>
        rw [view] at stuck
        exact ⟨cwd, .stuck seen cleared stuck⟩
      | part able notLink read names breaks cwd' part =>
        rw [view] at able breaks
        rw [cwd] at read names
        exact ⟨cwd'.trans cwd, .part seen cleared able notLink read names breaks part⟩
    · rw [run_bind_of_error kept] at failed
      cases failed
      exact ⟨rfl, .kept none⟩
  · have unseen : ∀ x, ¬ Shows m w.toView src x := fun x h => seen ⟨x, h⟩
    obtain ⟨x, run⟩ := run_replaceEntry_unseen dst unseen
    rw [run] at failed
    cases failed
    exact ⟨rfl, .unseen unseen⟩

/-- Where the old entry has been cleared away, the copy ends as it ends where nothing stands. -/
theorem run_replaceEntry_cleared (seen : Shows m w.toView src x) (cleared : Cleared m w.toView dst u) :
    ∃ w₁, w₁.toView = w.toView.holding u ∧
      (replaceEntry src dst).run m w = (putEntry src dst x).run m w₁ ∧ Vacant w₁.volume w₁.cwd dst := by
  rw [run_replaceEntry_seen seen]
  rcases removeFileIfThere_clears m dst w with ⟨w₁, clear, view, cleared'⟩ | ⟨-, none⟩
  · rw [← cleared.unique cleared'] at view
    exact ⟨w₁, view, run_bind_of_ok clear, removeFileIfThere_vacates clear⟩
  · exact absurd cleared (none u)

theorem Leaves.run_replaceEntry (h : Leaves m w.toView src dst u) :
    ∃ e w', (replaceEntry src dst).run m w = (.error e, w') ∧
      ∀ j, w'.volume.lookup j = u.lookup j := by
  cases h with
  | unseen unseen =>
    obtain ⟨e, run⟩ := run_replaceEntry_unseen dst unseen
    exact ⟨e, w, run, fun _ => rfl⟩
  | kept kept =>
    by_cases seen : ∃ x, Shows m w.toView src x
    · obtain ⟨x, seen⟩ := seen
      rw [run_replaceEntry_seen seen]
      rcases removeFileIfThere_clears m dst w with ⟨w₁, -, -, cleared⟩ | ⟨⟨e, refused⟩, -⟩
      · exact absurd cleared (kept _)
      · exact ⟨e, w, run_bind_of_error refused, fun _ => rfl⟩
    · obtain ⟨e, run⟩ := run_replaceEntry_unseen dst fun x h => seen ⟨x, h⟩
      exact ⟨e, w, run, fun _ => rfl⟩
  | @stuck x _ seen cleared stuck =>
    obtain ⟨w₁, view, run, vacant⟩ := run_replaceEntry_cleared seen cleared
    have put := putEntry_puts m src x vacant
    rw [run]
    rw [← view] at stuck
    rcases ended : (putEntry src dst x).run m w₁ with ⟨r, w'⟩
    rw [ended] at put
    cases put with
    | stuck => exact ⟨_, _, rfl, fun j => by rw [← (of_holding view).2]⟩
    | part able => exact absurd stuck able
    | made able => exact absurd stuck able
  | @part x v _ k l f n seen cleared able notLink read names breaks part =>
    obtain ⟨w₁, view, run, vacant⟩ := run_replaceEntry_cleared seen cleared
    have put := putEntry_puts m src x vacant
    obtain ⟨cwd, rfl⟩ := of_holding view
    rw [run]
    rw [← view] at able breaks
    rw [← show w₁.cwd = w.cwd from cwd] at read names
    rcases ended : (putEntry src dst x).run m w₁ with ⟨r, w'⟩
    rw [ended] at put
    cases put with
    | stuck stuck => exact absurd stuck able
    | @part e _ k' l' f' n' _ _ read' names' breaks' _ part' =>
      cases read.symm.trans read'
      obtain rfl := names.unique names'
      obtain rfl := breaks.unique breaks'
      exact ⟨e, w', rfl, fun j => (part' j).trans (part j).symm⟩
    | made _ whole => exact absurd breaks (whole notLink k l f n read names)

/-- On a machine without limits no copy ends in a part. -/
theorem Leaves.whole_or_erased (h : Leaves o s src dst u) :
    u = s.volume ∨ ∃ l, Removable s.volume s.cwd dst l ∧ u = s.volume.erase l := by
  cases h with
  | unseen => exact .inl rfl
  | kept => exact .inl rfl
  | stuck _ cleared _ =>
    cases cleared with
    | removed _ removable => exact .inr ⟨_, removable, rfl⟩
    | missing => exact .inl rfl
  | part _ _ _ _ _ _ breaks =>
    cases breaks with
    | mode refused => cases refused
    | write _ cut => cases cut

/-- A copy that fails leaves one of the things that it can leave, and where it can leave something it
fails and leaves that. Links and files are lost only to the copy that was to replace them, and nothing but
a first part of that copy is new. -/
theorem copyArtifact_forfeits (src dst : Path) (m : Machine) (w : World) :
    let after := (copyArtifact src dst).run m w
    (∀ e, after.1 = .error e → (∃ cause, e = .copy src dst cause) ∧ after.2.cwd = w.cwd ∧
      Leaves m w.toView src dst after.2.volume) ∧
    ∀ u, Leaves m w.toView src dst u →
      (∃ e, after.1 = .error e) ∧ ∀ j, after.2.volume.lookup j = u.lookup j := by
  intro after
  refine ⟨fun e failed => ?_, fun u leaves => ?_⟩
  · have run : (copyArtifact src dst).run m w = (.error e, after.2) := Prod.ext failed rfl
    obtain ⟨cause, rfl, stopped⟩ := run_mapError_error.1 run
    exact ⟨⟨cause, rfl⟩, replaceEntry_leaves stopped⟩
  · obtain ⟨cause, w', run, same⟩ := leaves.run_replaceEntry
    have failed : (copyArtifact src dst).run m w = (.error (.copy src dst cause), w') :=
      run_mapError_error.2 ⟨cause, rfl, run⟩
    exact ⟨⟨_, congrArg Prod.fst failed⟩, by rw [show after = _ from failed]; exact same⟩

section Sample

open Library

/-- A directory, and two files with different bytes. -/
def besideDir : World :=
  worldOf [("/a", .dir), ("/b", text), ("/c", .file ⟨[1, 2], plainMode, none⟩)]

/-- A file is lost to a directory that was to be copied in its place, and one that was to be copied onto
itself is lost too. -/
theorem failed_copy_forfeits :
    (((copyArtifact "/a" "/b").run quiet besideDir).1.isOk = false ∧
      (besideDir.volume.entryAt besideDir.cwd "/b").toOption = some ([ofText "b"], text) ∧
      ((copyArtifact "/a" "/b").run quiet besideDir).2.volume.lookup [ofText "b"] = none) ∧
    (((copyArtifact "/b" "/b").run quiet besideDir).1.isOk = false ∧
      ((copyArtifact "/b" "/b").run quiet besideDir).2.volume.lookup [ofText "b"] = none) := by
  decide +kernel

/-- One of the files may not be read, and there is room for one byte. -/
def cramped : Machine where
  toOutside := quiet
  refuses c _ := if c = .read "/b" then some .accessDenied else none
  refuses_ne_noEntry c s := by split <;> decide
  cutsShort _ _ _ := some (1, ⟨28⟩)

/-- A file is lost to a directory and to a file that may not be read, and is replaced by the first byte of
a file for which there is no room. -/
theorem copyArtifact_forfeits_dir :
    (Leaves quiet besideDir.toView "/a" "/b" (besideDir.volume.erase [ofText "b"]) ∧
      ∃ e, ((copyArtifact "/a" "/b").run quiet besideDir).1 = .error e) ∧
    (((copyArtifact "/b" "/c").run cramped besideDir).1.isOk = false ∧
      Leaves cramped besideDir.toView "/b" "/c" ((copyArtifact "/b" "/c").run cramped besideDir).2.volume ∧
      ((copyArtifact "/b" "/c").run cramped besideDir).2.volume.lookup [ofText "c"] = none) ∧
    (((copyArtifact "/c" "/b").run cramped besideDir).1.isOk = false ∧
      Leaves cramped besideDir.toView "/c" "/b" ((copyArtifact "/c" "/b").run cramped besideDir).2.volume ∧
      ((copyArtifact "/c" "/b").run cramped besideDir).2.volume.lookup [ofText "b"] =
        some (.file ⟨[1], plainMode, none⟩)) := by
  have lost : Leaves quiet besideDir.toView "/a" "/b" (besideDir.volume.erase [ofText "b"]) := by
    have removable : Removable besideDir.volume besideDir.cwd "/b" [ofText "b"] :=
      ⟨⟨by decide, [], ofText "b", rfl, ok_of_toOption (by decide +kernel)⟩,
        text, by decide +kernel, by decide⟩
    refine .stuck (x := .dir) ⟨rfl, [ofText "a"], ok_of_toOption (by decide +kernel)⟩
      (.removed rfl removable) (.source (by simp) fun l f seen => ?_)
    have dir : ((besideDir.volume.erase [ofText "b"]).stat besideDir.cwd "/a").toOption =
        some ([ofText "a"], .dir) := by decide +kernel
    cases (ok_of_toOption dir).symm.trans seen
  have fails : ∀ r : Except BuildError Unit, r.isOk = false → ∃ e, r = .error e := by
    rintro (e | _) h
    · exact ⟨e, rfl⟩
    · cases h
  have unread : ((copyArtifact "/b" "/c").run cramped besideDir).1.isOk = false := by decide +kernel
  have cut : ((copyArtifact "/c" "/b").run cramped besideDir).1.isOk = false := by decide +kernel
  obtain ⟨e, refused⟩ := fails _ unread
  obtain ⟨e', full⟩ := fails _ cut
  exact ⟨⟨lost, ((copyArtifact_forfeits "/a" "/b" quiet besideDir).2 _ lost).1⟩,
    ⟨unread, ((copyArtifact_forfeits "/b" "/c" cramped besideDir).1 e refused).2.2, by decide +kernel⟩,
    cut, ((copyArtifact_forfeits "/c" "/b" cramped besideDir).1 e' full).2.2, by decide +kernel⟩

end Sample

end PinnedDeps
