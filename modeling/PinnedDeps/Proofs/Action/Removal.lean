import PinnedDeps.Proofs.Action.Run
import PinnedDeps.Proofs.Volume.Upright

/-!
Removing files and trees. A removal only takes entries away, and once the tree at a path has been
removed, nothing is seen at the path or below it.
-/
namespace PinnedDeps.Action

open Volume

variable {ε : Type} {o : Machine} {w w' : World} {p : Path} {cwd l top e : Location}

theorem moves_commit {R : Volume → Volume → Prop} {f : Volume → Location → Volume}
    (h : ∀ v, R v (f v cwd)) : Moves cwd R (do commit (← look f) : Action ε Unit) := by
  rintro _ _ rfl
  exact .set (h _)

theorem moves_removeFile (p : Path) : Moves cwd Thins (change fun v cwd => v.removeFile cwd p) := by
  refine moves_change Thins.refl ?_
  intro v v' h
  obtain ⟨d, n, _, _, _, _, _, rfl⟩ := removeFile_ok h
  exact thins_erase v _

theorem moves_removal {R : Volume → Volume → Prop} (hr : ∀ v, R v v)
    (ht : ∀ u v x, R u v → R v x → R u x)
    (h : Moves cwd R (change fun v cwd => v.removeFile cwd p)) : Moves cwd R (removeFileIfThere p) :=
  moves_ifThere hr ht (moves_permitted hr ht _ h)

theorem moves_removeFileIfThere (p : Path) : Moves cwd Thins (removeFileIfThere p) :=
  moves_removal Thins.refl Thins.trans (moves_removeFile p)

theorem run_removeFileIfThere_of_refused {x : SystemError}
    (h : o.refuses (.remove p) w.toView = some x) :
    (removeFileIfThere p).run o w = (.error (.system x), w) := by
  have other : IoError.system x ≠ .system .noEntry := by
    rintro ⟨⟩
    exact o.refuses_ne_noEntry _ _ h
  unfold removeFileIfThere
  rw [run_ifThere, run_permitted, h]
  simp only
  rw [if_neg other]

theorem run_removeFileIfThere_of_permitted (h : o.refuses (.remove p) w.toView = none) :
    (removeFileIfThere p).run o w = (ifThere (change fun v cwd => v.removeFile cwd p)).run o w := by
  unfold removeFileIfThere
  rw [run_ifThere, run_permitted, h, run_ifThere]

theorem run_removeFileIfThere {o : Outside} (p : Path) : (removeFileIfThere p).run o w =
    match w.volume.removeFile w.cwd p with
    | .ok v => (.ok (), w.set v)
    | .error e => (if e = .system .noEntry then .ok () else .error e, w) := by
  rw [run_removeFileIfThere_of_permitted rfl, run_ifThere, run_change]
  cases w.volume.removeFile w.cwd p <;> rfl

theorem removeFileIfThere_failed {x : IoError}
    (h : (removeFileIfThere p).run o w = (.error x, w')) : w' = w := by
  cases refused : o.refuses (.remove p) w.toView with
  | some x =>
    rw [run_removeFileIfThere_of_refused refused] at h
    exact (congrArg Prod.snd h).symm
  | none =>
    rw [run_removeFileIfThere_of_permitted refused, run_ifThere, run_change] at h
    cases hv : w.volume.removeFile w.cwd p with
    | ok v => rw [hv] at h; cases h
    | error e =>
      rw [hv] at h
      exact (congrArg Prod.snd h).symm

theorem moves_removeTree (p : Path) : Moves cwd Thins (removeTree p) := by
  refine moves_bind Thins.trans (moves_ask Thins.refl _) fun x => ?_
  split
  · exact moves_removeFile p
  · exact moves_throw Thins.refl _
  · refine moves_bind Thins.trans (moves_look Thins.refl _) fun ls => ?_
    refine moves_bind Thins.trans (moves_forM Thins.refl Thins.trans fun l _ => ?_) fun _ => ?_
    · exact moves_commit fun v => thins_erase v l
    · refine moves_change Thins.refl ?_
      intro v v' h
      obtain ⟨d, n, _, _, _, rfl⟩ := removeDir_ok h
      exact thins_erase v _

theorem moves_removeTreeIfThere (p : Path) : Moves cwd Thins (removeTreeIfThere p) :=
  moves_ifThere Thins.refl Thins.trans (moves_removeTree p)

/-- Nothing stands at the path. -/
def Vacant (v : Volume) (cwd : Location) (p : Path) : Prop := (v.entryAt cwd p).isOk = false

theorem Vacant.thins {v u : Volume} {cwd : Location} (h : Vacant v cwd p) (g : Thins v u) :
    Vacant u cwd p := by
  unfold Vacant
  cases hx : u.entryAt cwd p with
  | error e => rfl
  | ok y =>
    unfold Vacant at h
    rw [g.entryAt hx] at h
    cases h

theorem Vacant.lookup {v : Volume} {cwd : Location} {n : String} (h : Vacant v cwd (p / n))
    (hn : IsName (Bytes.ofText n)) (hc : checkPath (p / n) = .ok ())
    (hl : (Bytes.ofText n).length ≤ nameLimit) (he : Opens v cwd p e) :
    v.lookup (Bytes.ofText n :: e) = none := by
  cases hx : v.lookup (Bytes.ofText n :: e) with
  | none => rfl
  | some x =>
    unfold Vacant at h
    rw [(entryAt_div hn).2 ⟨hc, hl, e, he, rfl, hx⟩] at h
    cases h

theorem vacant_of_lookup {v : Volume} {cwd : Location} {n : String} (hn : IsName (Bytes.ofText n))
    (he : Opens v cwd p e) (free : v.lookup (Bytes.ofText n :: e) = none) : Vacant v cwd (p / n) := by
  unfold Vacant
  cases hx : v.entryAt cwd (p / n) with
  | error _ => rfl
  | ok y =>
    obtain ⟨l, x⟩ := y
    obtain ⟨-, -, d, hd, rfl, there⟩ := (entryAt_div hn).1 hx
    rw [hd.unique he, free] at there
    cases there

/-- A removed entry cannot be reached in another way. -/
theorem vacant_of_erase {v : Volume} {cwd d : Location} {n : Bytes}
    (h : reachName v cwd p = .ok (.name d n)) : Vacant (v.erase (n :: d)) cwd p := by
  unfold Vacant
  cases hx : (v.erase (n :: d)).entryAt cwd p with
  | error e => rfl
  | ok y =>
    obtain ⟨L, hL, there⟩ := reachName_of_entryAt hx
    have same := (thins_erase v (n :: d)).reachName hL
    rw [h] at same
    have := there d n (Except.ok.inj same).symm
    rw [lookup_erase v _ (by simp), if_pos rfl] at this
    cases this

theorem vacant_of_removeFile {v v' : Volume} {cwd : Location} (h : v.removeFile cwd p = .ok v') :
    Vacant v' cwd p := by
  obtain ⟨d, n, x, hL, _, _, _, rfl⟩ := removeFile_ok h
  exact vacant_of_erase hL

theorem vacant_of_removeDir {v v' : Volume} {cwd : Location} (h : v.removeDir cwd p = .ok v') :
    Vacant v' cwd p := by
  obtain ⟨d, n, hL, _, _, rfl⟩ := removeDir_ok h
  exact vacant_of_erase hL

/-- A file or a link that is there is not missed by its removal. -/
theorem removeFile_missing {v : Volume} {cwd : Location}
    (h : v.removeFile cwd p = .error (.system .noEntry)) : Vacant v cwd p := by
  unfold Vacant
  cases hx : v.entryAt cwd p with
  | error e => rfl
  | ok y =>
    obtain ⟨L, hL, there⟩ := reachName_of_entryAt hx
    unfold removeFile at h
    rw [hL] at h
    cases L with
    | place l => cases h
    | name d n =>
      obtain ⟨z, hz⟩ := Option.isSome_iff_exists.1 (there d n rfl)
      simp only [bind, Except.bind, hz] at h
      cases z with
      | dir => cases h
      | file f =>
        simp only at h
        split at h <;> cases h
      | link t =>
        simp only at h
        split at h <;> cases h

/-- A directory that is there is not missed by its removal. -/
theorem removeDir_missing {v : Volume} {cwd : Location}
    (h : v.removeDir cwd p = .error (.system .noEntry)) : Vacant v cwd p := by
  unfold Vacant
  cases hx : v.entryAt cwd p with
  | error e => rfl
  | ok y =>
    obtain ⟨L, hL, there⟩ := reachName_of_entryAt hx
    unfold removeDir at h
    rw [hL] at h
    cases L with
    | place l =>
      cases l with
      | nil => cases h
      | cons n d =>
        simp only [bind, Except.bind] at h
        split at h <;> cases h
    | name d n =>
      obtain ⟨z, hz⟩ := Option.isSome_iff_exists.1 (there d n rfl)
      simp only [bind, Except.bind, hz] at h
      cases z with
      | dir =>
        simp only at h
        split at h <;> cases h
      | file f => cases h
      | link t => cases h

/-- What is removed if it is there is not there afterwards, as long as a removal that misses it
finds nothing. -/
theorem ifThere_vacates {f : Volume → Location → Except IoError Volume}
    (removes : ∀ v, f w.volume w.cwd = .ok v → Vacant v w.cwd p)
    (misses : f w.volume w.cwd = .error (.system .noEntry) → Vacant w.volume w.cwd p)
    (h : (ifThere (change f)).run o w = (.ok (), w')) : Vacant w'.volume w'.cwd p := by
  rw [run_ifThere, run_change] at h
  cases hv : f w.volume w.cwd with
  | ok v =>
    rw [hv] at h
    cases h
    exact removes v hv
  | error e =>
    rw [hv] at h
    obtain ⟨ended, rfl⟩ := Prod.mk.inj h
    by_cases he : e = .system .noEntry
    · exact misses (he ▸ hv)
    · simp only [if_neg he] at ended
      cases ended

theorem removeFileIfThere_vacates (h : (removeFileIfThere p).run o w = (.ok (), w')) :
    Vacant w'.volume w'.cwd p := by
  cases refused : o.refuses (.remove p) w.toView with
  | some x =>
    rw [run_removeFileIfThere_of_refused refused] at h
    cases h
  | none =>
    rw [run_removeFileIfThere_of_permitted refused] at h
    exact ifThere_vacates (fun _ => vacant_of_removeFile) removeFile_missing h

theorem upright_removeFile {v v' : Volume} {cwd : Location} (h : Upright v)
    (g : v.removeFile cwd p = .ok v') : Upright v' := by
  obtain ⟨d, n, x, _, _, hx, hd, rfl⟩ := removeFile_ok g
  refine h.erase (h.empty ?_)
  rw [hx]
  exact fun e => hd (Option.some.inj e)

theorem upright_removeFileIfThere (p : Path) :
    Moves cwd (fun v u => Upright v → Upright u) (removeFileIfThere p) :=
  moves_removal (fun _ h => h) (fun _ _ _ f g h => g (f h)) <|
    moves_change (fun _ h => h) fun _ _ g h => upright_removeFile h g

/-- The path cannot be used, or leads to no directory. -/
def Shut (v : Volume) (cwd : Location) (p : Path) : Prop :=
  checkPath p = .ok () → ∀ e, ¬ Opens v cwd p e

theorem Shut.keep {v v' : Volume} {cwd : Location} (h : Shut v cwd p) (k : Keeps v' v) :
    Shut v' cwd p :=
  fun hc e he => h hc e (he.keep k)

theorem shut_of_entryAt {v : Volume} {cwd : Location} (hp : p.EndsInName)
    (h : (v.entryAt cwd p).isOk = false) : Shut v cwd p := by
  intro hc e he
  obtain ⟨n, d, x, _, hx, _⟩ := he.entryAt hp hc
  rw [hx] at h
  cases h

/-- Nothing is seen through a path that leads to no directory. -/
theorem Shut.stat_div {v : Volume} {cwd : Location} {n : String} (h : Shut v cwd p)
    (hp : p.EndsInName) (hn : IsName (Bytes.ofText n)) : (v.stat cwd (p / n)).isOk = false := by
  cases g : v.stat cwd (p / n) with
  | error e => rfl
  | ok x =>
    obtain ⟨e, he, _⟩ := Volume.stat_div hn g
    obtain ⟨L, hL, _, _⟩ := stat_ok.1 g
    have hne : p.bytes ≠ [] := by
      intro hb
      obtain ⟨pre, z, hz, _, _⟩ := hp.last
      rw [Path.segments, hb] at hz
      simp at hz
    exact absurd he (h (checkPath_of_div hn hne (reach_ok.1 hL).1) e)

/-- Erasing one location after another. -/
def eraseAll (ls : List Location) : Action ε Unit :=
  ls.forM fun l => do commit (← look fun v _ => v.erase l)

theorem moves_eraseAll {R : Volume → Volume → Prop} (hr : ∀ v, R v v)
    (ht : ∀ u v x, R u v → R v x → R u x) {ls : List Location}
    (h : ∀ l ∈ ls, ∀ v, R v (v.erase l)) : Moves cwd R (eraseAll ls : Action ε Unit) :=
  moves_forM hr ht fun l hl => moves_commit fun v => h l hl v

theorem run_eraseAll (ls : List Location) (w : World) :
    ∃ w', (eraseAll ls : Action ε Unit).run o w = (.ok (), w') ∧
      ∀ j, j ≠ [] → w'.volume.lookup j = if j ∈ ls then none else w.volume.lookup j := by
  induction ls generalizing w with
  | nil => exact ⟨w, rfl, fun j _ => by simp⟩
  | cons l ls ih =>
    obtain ⟨w', hrun, hlook⟩ := ih (w.set (w.volume.erase l))
    refine ⟨w', hrun, fun j hj => ?_⟩
    rw [hlook j hj, World.set_volume, lookup_erase _ _ hj]
    by_cases h : j = l
    · simp [h]
    · simp [h]

theorem lookup_of_not_mem_inside {v : Volume} (hl : Inside l top) (h : l ∉ inside v top) :
    v.lookup l = none := by
  have hne : l ≠ [] := by
    rintro rfl
    exact hl.2 (hl.1.antisymm (below_root top))
  cases hx : v.lookup l with
  | none => rfl
  | some x =>
    rw [lookup_eq v hne, List.lookup_eq_some_iff] at hx
    obtain ⟨a, b, hab, _⟩ := hx
    refine absurd (List.mem_mergeSort.2 (List.mem_filter.2 ⟨?_, ?_⟩)) h
    · rw [hab]
      simp
    · simpa [Inside] using hl

theorem below_of_mem_inside {v : Volume} (h : l ∈ inside v top) : Inside l top := by
  have := (List.mem_filter.1 (List.mem_mergeSort.1 h)).2
  simpa [Inside] using this

/-- What is in a directory is gone, and nothing else is. -/
structure Emptied (top : Location) (v v' : Volume) : Prop where
  within : ∀ l, Inside l top → v'.lookup l = none
  without : ∀ l, ¬ Inside l top → v'.lookup l = v.lookup l

theorem Emptied.thins {v v' : Volume} (h : Emptied top v v') : Thins v v' := by
  intro l x hl
  by_cases hi : Inside l top
  · rw [h.within l hi] at hl
    cases hl
  · rwa [h.without l hi] at hl

/-- Of the tree at a location some entries are gone, and if its root is, all of it. -/
structure Pruned (top : Location) (v v' : Volume) : Prop where
  thins : Thins v v'
  outside : ∀ l, ¬ Below l top → v'.lookup l = v.lookup l
  root : Gone v' top ∨ v'.lookup top = v.lookup top

theorem Pruned.refl (top : Location) (v : Volume) : Pruned top v v :=
  ⟨Thins.refl v, fun _ _ => rfl, .inr rfl⟩

theorem Pruned.trans (u v x : Volume) (h : Pruned top u v) (g : Pruned top v x) :
    Pruned top u x := by
  refine ⟨h.thins.trans _ _ _ g.thins, fun l hl => (g.outside l hl).trans (h.outside l hl), ?_⟩
  rcases g.root with gone | same
  · exact .inl gone
  · rcases h.root with gone | same'
    · exact .inl (gone.thins g.thins)
    · exact .inr (same.trans same')

theorem Pruned.treeAt {v v' : Volume} (h : Pruned top v v') (t : TreeAt v top) :
    TreeAt v' top := by
  rcases h.root with gone | same
  · exact .inl gone
  · rcases t with gone | dir
    · exact .inl (gone.thins h.thins)
    · exact .inr (same.trans dir)

theorem Pruned.within {n : Bytes} {d : Location} {v v' : Volume} (h : Pruned (n :: d) v v') :
    Within d v v' :=
  fun l hl => h.outside l fun g => hl g.inside

theorem pruned_erase {v : Volume} (hl : Inside l top) : Pruned top v (v.erase l) := by
  refine ⟨thins_erase v l, fun j hj => lookup_erase_ne v ?_, .inr (lookup_erase_ne v hl.2.symm)⟩
  rintro rfl
  exact hj hl.1

/-- A directory is emptied from the leaves up. -/
theorem run_emptied (top : Location) (w : World) :
    ∃ w', (eraseAll (inside w.volume top) : Action IoError Unit).run o w = (.ok (), w') ∧
      Moved (Pruned top) w w' ∧ Emptied top w.volume w'.volume := by
  obtain ⟨w', hrun, hlook⟩ := run_eraseAll (o := o) (inside w.volume top) w
  have moved : Moved (Pruned top) w w' := by
    have moves : Moves w.cwd (Pruned top)
        (eraseAll (inside w.volume top) : Action IoError Unit) :=
      moves_eraseAll (Pruned.refl _) Pruned.trans fun l hl _ =>
        pruned_erase (below_of_mem_inside hl)
    have := moves o w rfl
    rwa [hrun] at this
  refine ⟨w', hrun, moved, fun l hl => ?_, fun l hl => ?_⟩
  · have hne : l ≠ [] := by
      rintro rfl
      exact hl.2 (hl.1.antisymm (below_root top))
    rw [hlook l hne]
    split
    · rfl
    · exact lookup_of_not_mem_inside hl ‹_›
  · cases l with
    | nil => rfl
    | cons n d => rw [hlook _ (by simp), if_neg fun h => hl (below_of_mem_inside h)]

section Run

theorem run_removeTree_error {x : IoError} (h : w.volume.entryAt w.cwd p = .error x) :
    (removeTree p).run o w = (.error x, w) := by
  unfold removeTree
  rw [run_bind, run_ask, h]

theorem run_removeTree_file {f : File} (h : w.volume.entryAt w.cwd p = .ok (l, .file f)) :
    (removeTree p).run o w = (.error (.system .notDirectory), w) := by
  unfold removeTree
  rw [run_bind, run_ask, h]
  rfl

theorem run_removeTree_link {t : Bytes} (h : w.volume.entryAt w.cwd p = .ok (l, .link t)) :
    (removeTree p).run o w = (change fun v cwd => v.removeFile cwd p).run o w := by
  unfold removeTree
  rw [run_bind, run_ask, h]

/-- A directory is emptied before it is removed. -/
theorem run_removeTree_dir (h : w.volume.entryAt w.cwd p = .ok (top, .dir)) :
    ∃ w₁, (removeTree p).run o w = (change fun v cwd => v.removeDir cwd p).run o w₁ ∧
      Moved (Pruned top) w w₁ ∧ Emptied top w.volume w₁.volume := by
  obtain ⟨w₁, hrun, moved, emptied⟩ := run_emptied (o := o) top w
  refine ⟨w₁, ?_, moved, emptied⟩
  unfold removeTree
  rw [run_bind, run_ask, h]
  show (eraseAll (inside w.volume top) >>= fun _ => _ : Action IoError Unit).run o w = _
  rw [run_bind, hrun]

theorem removeTreeIfThere_vacates (h : (removeTreeIfThere p).run o w = (.ok (), w')) :
    Vacant w'.volume w'.cwd p := by
  unfold removeTreeIfThere at h
  rw [run_ifThere] at h
  cases hx : w.volume.entryAt w.cwd p with
  | error x =>
    rw [run_removeTree_error hx] at h
    unfold Vacant
    rw [← (Prod.mk.inj h).2, hx]
    rfl
  | ok y =>
    obtain ⟨top, x⟩ := y
    cases x with
    | file f =>
      rw [run_removeTree_file hx] at h
      cases h
    | link t =>
      rw [run_removeTree_link hx, ← run_ifThere] at h
      exact ifThere_vacates (fun _ => vacant_of_removeFile) removeFile_missing h
    | dir =>
      obtain ⟨w₁, hrun, _⟩ := run_removeTree_dir (o := o) hx
      rw [hrun, ← run_ifThere] at h
      exact ifThere_vacates (fun _ => vacant_of_removeDir) removeDir_missing h

end Run

section Name

variable {n : String} (hn : IsName (Bytes.ofText n)) (hc : checkPath (p / n) = .ok ())
  (hl : (Bytes.ofText n).length ≤ nameLimit)
include hn hc hl

/-- A file or a link at a name is removed in one step. -/
theorem run_removeFileIfThere_name {o : Outside} (h : Opens w.volume w.cwd p e)
    (hx : w.volume.lookup (Bytes.ofText n :: e) ≠ some .dir) :
    ∃ w', (removeFileIfThere (p / n)).run o w = (.ok (), w') ∧
      Moved (fun v v' => v' = v ∨ v' = v.erase (Bytes.ofText n :: e)) w w' ∧
      ∀ j, w'.volume.lookup j =
        if j = Bytes.ofText n :: e then none else w.volume.lookup j := by
  rw [run_removeFileIfThere, removeFile_eq hn hc hl h]
  cases hy : w.volume.lookup (Bytes.ofText n :: e) with
  | none =>
    refine ⟨w, rfl, .refl (fun _ => .inl rfl) w, fun j => ?_⟩
    split
    · rename_i hj
      rw [hj, hy]
    · rfl
  | some x =>
    have erased : ∀ j, (w.set (w.volume.erase (Bytes.ofText n :: e))).volume.lookup j =
        if j = Bytes.ofText n :: e then none else w.volume.lookup j := by
      intro j
      cases j with
      | nil => rfl
      | cons m d => exact lookup_erase _ _ (by simp)
    cases x with
    | dir => exact absurd hy hx
    | file f => exact ⟨w.set (w.volume.erase (Bytes.ofText n :: e)), rfl, .set (.inr rfl), erased⟩
    | link t => exact ⟨w.set (w.volume.erase (Bytes.ofText n :: e)), rfl, .set (.inr rfl), erased⟩

/-- A tree at a name is removed from the leaves up, and nothing of it is left. -/
theorem run_removeTreeIfThere_name (h : Fixed w.volume w.cwd p e)
    (ht : TreeAt w.volume (Bytes.ofText n :: e)) :
    ∃ w', (removeTreeIfThere (p / n)).run o w = (.ok (), w') ∧
      Moved (Pruned (Bytes.ofText n :: e)) w w' ∧ Gone w'.volume (Bytes.ofText n :: e) := by
  have there := entryAt_eq hn hc hl h.opens
  unfold removeTreeIfThere
  rw [run_ifThere]
  rcases ht with gone | dir
  · have missing : w.volume.entryAt w.cwd (p / n) = .error SystemError.noEntry := by
      rw [there]
      unfold found
      simp [Landing.location, gone _ (below_refl _)]
    rw [run_removeTree_error missing]
    exact ⟨w, rfl, .refl (Pruned.refl _) w, gone⟩
  · have found : w.volume.entryAt w.cwd (p / n) = .ok (Bytes.ofText n :: e, .dir) := by
      rw [there]
      exact found_ok.2 ⟨rfl, dir⟩
    obtain ⟨w₁, hrun, moved, emptied⟩ := run_removeTree_dir (o := o) found
    have opens : Opens w₁.volume w₁.cwd p e := by
      rw [moved.cwd]
      exact h _ moved.now.within
    have root : w₁.volume.lookup (Bytes.ofText n :: e) = some .dir := by
      rw [emptied.without _ fun g => g.2 rfl, dir]
    have empty : w₁.volume.names (Bytes.ofText n :: e) = [] :=
      names_of_empty fun m => emptied.within _ (inside_cons m _)
    have gone : Gone (w₁.volume.erase (Bytes.ofText n :: e)) (Bytes.ofText n :: e) := by
      intro j hj
      by_cases hje : j = Bytes.ofText n :: e
      · rw [hje, lookup_erase _ _ (by simp), if_pos rfl]
      · rw [lookup_erase_ne _ hje, emptied.within j ⟨hj, hje⟩]
    refine ⟨w₁.set (w₁.volume.erase (Bytes.ofText n :: e)), ?_,
      moved.trans Pruned.trans (.set ?_), gone⟩
    · rw [hrun, run_change, removeDir_eq hn hc hl opens root empty]
    · refine ⟨thins_erase _ _, fun l hl => lookup_erase_ne _ ?_, .inl gone⟩
      rintro rfl
      exact hl (below_refl _)

end Name

/-- What the removal of a tree has come to. -/
inductive TreeRemoved (p : Path) (w : World) : Except IoError Unit → World → Prop
  | missing {x r} (unseen : w.volume.entryAt w.cwd p = .error x) : TreeRemoved p w r w
  | file {l f x} (seen : w.volume.entryAt w.cwd p = .ok (l, .file f)) :
      TreeRemoved p w (.error x) w
  | link {l t v} (seen : w.volume.entryAt w.cwd p = .ok (l, .link t))
      (removed : w.volume.removeFile w.cwd p = .ok v) : TreeRemoved p w (.ok ()) (w.set v)
  | dir {l v} {w₁ : World} (seen : w.volume.entryAt w.cwd p = .ok (l, .dir)) (cwd : w₁.cwd = w.cwd)
      (emptied : Emptied l w.volume w₁.volume) (removed : w₁.volume.removeDir w₁.cwd p = .ok v) :
      TreeRemoved p w (.ok ()) (w₁.set v)
  | kept {l x r} {w₁ : World} (seen : w.volume.entryAt w.cwd p = .ok (l, .dir)) (cwd : w₁.cwd = w.cwd)
      (emptied : Emptied l w.volume w₁.volume) (refused : w₁.volume.removeDir w₁.cwd p = .error x)
      (missing : r = .ok () → x = SystemError.noEntry) : TreeRemoved p w r w₁

section Removed

variable {r : Except IoError Unit} (hp : p.EndsInName)
include hp

theorem removeFile_link {v : Volume} {cwd : Location} {t : Bytes}
    (hx : v.entryAt cwd p = .ok (l, .link t)) : ∃ v', v.removeFile cwd p = .ok v' := by
  obtain ⟨L, hL, rfl, ht⟩ := entryAt_ok.1 hx
  rw [reach_eq_reachName hp.noSlash] at hL
  obtain ⟨d, n, rfl⟩ := reachName_of_endsInName hp hL
  refine ⟨v.erase (n :: d), ?_⟩
  unfold removeFile
  rw [hL]
  simp [bind, Except.bind, show v.lookup (n :: d) = some (.link t) from ht, hp.noSlash]

theorem treeRemoved (h : (removeTreeIfThere p).run o w = (r, w')) : TreeRemoved p w r w' := by
  unfold removeTreeIfThere at h
  rw [run_ifThere] at h
  cases hx : w.volume.entryAt w.cwd p with
  | error x =>
    rw [run_removeTree_error hx] at h
    cases h
    exact .missing hx
  | ok y =>
    obtain ⟨top, x⟩ := y
    cases x with
    | file f =>
      rw [run_removeTree_file hx] at h
      cases h
      exact .file hx
    | link t =>
      obtain ⟨v', hv'⟩ := removeFile_link hp hx
      rw [run_removeTree_link hx, run_change, hv'] at h
      cases h
      exact .link hx hv'
    | dir =>
      obtain ⟨w₁, hrun, moved, hem⟩ := run_removeTree_dir (o := o) hx
      rw [hrun, run_change] at h
      cases hv : w₁.volume.removeDir w₁.cwd p with
      | ok v₂ =>
        rw [hv] at h
        cases h
        exact .dir hx moved.cwd hem hv
      | error e =>
        rw [hv] at h
        by_cases he : e = .system .noEntry
        · simp only [if_pos he] at h
          cases h
          exact .kept hx moved.cwd hem hv fun _ => he
        · simp only [if_neg he] at h
          cases h
          exact .kept hx moved.cwd hem hv fun g => by cases g

/-- In a directory that has been emptied nothing is seen. -/
theorem Emptied.unseen {v v' : Volume} {cwd : Location} {n : String} (h : Emptied top v v')
    (hx : v.entryAt cwd p = .ok (top, .dir)) (hn : IsName (Bytes.ofText n)) :
    (v'.stat cwd (p / n)).isOk = false := by
  cases hs : v'.stat cwd (p / n) with
  | error e => rfl
  | ok y =>
    obtain ⟨e, he, hsome⟩ := stat_div hn hs
    have htop : e = top := (he.keep h.thins.poorer.keeps).eq_of_entryAt hp hx
    rw [htop, h.within _ (inside_cons _ _)] at hsome
    cases hsome

/-- After a tree has been removed, its path leads nowhere; and even a removal that fails leaves
nothing to be seen in the directory at the path. -/
theorem removeTree_hides (h : (removeTreeIfThere p).run o w = (r, w')) :
    (r = .ok () → Shut w'.volume w'.cwd p) ∧
      ∀ n : String, IsName (Bytes.ofText n) → (w'.volume.stat w'.cwd (p / n)).isOk = false := by
  have removed := treeRemoved hp h
  have shut : r = .ok () → Shut w'.volume w'.cwd p := by
    rintro rfl
    exact shut_of_entryAt hp (removeTreeIfThere_vacates h)
  refine ⟨shut, fun n hn => ?_⟩
  cases removed with
  | missing unseen => exact (shut_of_entryAt hp (by rw [unseen]; rfl)).stat_div hp hn
  | file seen =>
    refine Shut.stat_div (fun hc e he => ?_) hp hn
    obtain ⟨_, _, x, _, hx, hxe⟩ := he.entryAt hp hc
    rw [seen] at hx
    cases hx
    rcases hxe with ⟨g, _⟩ | ⟨_, g⟩ <;> cases g
  | link => exact (shut rfl).stat_div hp hn
  | dir => exact (shut rfl).stat_div hp hn
  | kept seen cwd emptied =>
    rw [cwd]
    exact emptied.unseen hp seen hn

end Removed

theorem Emptied.upright {v v' : Volume} (h : Emptied top v v') (g : Upright v) : Upright v' := by
  intro n d hn
  by_cases hi : Inside (n :: d) top
  · rw [h.within _ hi] at hn
    cases hn
  · rw [h.without _ hi] at hn
    rw [h.without d, g n d hn]
    exact fun hd => hi hd.cons

theorem TreeRemoved.upright {r : Except IoError Unit} (h : TreeRemoved p w r w')
    (g : Upright w.volume) : Upright w'.volume := by
  cases h with
  | missing => exact g
  | file => exact g
  | link _ removed => exact upright_removeFile g removed
  | dir _ _ emptied removed =>
    obtain ⟨d, n, _, _, empty, rfl⟩ := removeDir_ok removed
    exact (emptied.upright g).erase (empty_of_names empty)
  | kept _ _ emptied => exact emptied.upright g

end PinnedDeps.Action
