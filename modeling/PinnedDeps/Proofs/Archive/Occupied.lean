import PinnedDeps.Proofs.Archive.Confined

/-!
What stands at a place while an archive is unpacked. A file or a link keeps its place or gives it to
another file or link, and where that goes wrong the unpacking ends; so no directory comes there.
-/
namespace PinnedDeps

open PinnedDeps.Action Volume

namespace Volume

variable {v u : Volume} {cwd d l : Location} {n : Bytes} {p : Path} {x : Entry}

/-- At the location stands something that is no directory. -/
def Occupied (l : Location) (v : Volume) : Prop := ∃ x, v.lookup l = some x ∧ x ≠ .dir

theorem Occupied.not_dir (h : Occupied l v) : v.lookup l ≠ some .dir := by
  obtain ⟨x, hx, hd⟩ := h
  rw [hx]
  exact fun e => hd (Option.some.inj e)

theorem Occupied.put (h : Occupied l v) (x : Entry) (hn : v.lookup (n :: d) = none) :
    Occupied l (v.put (n :: d) x) := by
  obtain ⟨y, hy, hd⟩ := h
  exact ⟨y, lookup_put_new x hn hy, hd⟩

theorem occupied_put (v : Volume) (n : Bytes) (d : Location) (hx : x ≠ .dir) :
    Occupied (n :: d) (v.put (n :: d) x) :=
  ⟨x, (lookup_put v _ _ (by simp)).trans (if_pos rfl), hx⟩

theorem Occupied.adjust (h : Occupied l v) (j : Location) (change : File → File) :
    Occupied l (v.adjust j change) := by
  obtain ⟨x, hx, hd⟩ := h
  rcases lookup_adjust_alike v j l change with g | ⟨f, _, g, _⟩
  · exact ⟨x, g.trans hx, hd⟩
  · exact ⟨.file f, g, by simp⟩

theorem Occupied.makeDir (h : Occupied l v) (g : v.makeDir cwd p = .ok u) : Occupied l u := by
  obtain ⟨d, n, _, hn, rfl⟩ := makeDir_ok g
  exact h.put .dir hn

theorem Occupied.hardLink {q : Path} (h : Occupied l v) (g : v.hardLink cwd p q = .ok u) :
    Occupied l u := by
  obtain ⟨src, x, d, n, hs, _, hn, notDir, rfl⟩ := hardLink_ok g
  have there : v.lookup src = some x := by
    obtain ⟨_, _, rfl, there⟩ := entryAt_ok.1 hs
    exact there
  cases x with
  | dir => exact absurd rfl notDir
  | link t =>
    rw [addName_link there]
    exact h.put _ hn
  | file f =>
    obtain ⟨f', look⟩ := lookup_addName_file there n d
    obtain ⟨y, hy, hd⟩ := h
    by_cases hl : l = n :: d ∨ l = src
    · exact ⟨.file f', (look l).trans (if_pos hl), by simp⟩
    · exact ⟨y, ((look l).trans (if_neg hl)).trans hy, hd⟩

end Volume

namespace Unpack

variable {ε ε' α β : Type} {o : Machine} {w w' : World} {cwd l : Location} {dest p : Path} {m : Member}

/-- A run that ends well leaves the place occupied, and none leaves a directory there. -/
structure Guarded (cwd l : Location) (r : Except ε α × World) : Prop where
  cwd : r.2.cwd = cwd
  kept : ∀ x, r.1 = .ok x → Occupied l r.2.volume
  spared : r.2.volume.lookup l ≠ some .dir

theorem guarded_error {e : ε} (hcwd : w.cwd = cwd) (h : w.volume.lookup l ≠ some .dir) :
    Guarded cwd l ((.error e, w) : Except ε α × World) := by
  refine ⟨hcwd, fun x hx => ?_, h⟩
  cases hx

theorem guarded_ok {x : α} (hcwd : w.cwd = cwd) (h : Occupied l w.volume) :
    Guarded cwd l ((.ok x, w) : Except ε α × World) := ⟨hcwd, fun _ _ => h, h.not_dir⟩

def Guards (cwd l : Location) (a : Action ε α) : Prop :=
  ∀ o w, w.cwd = cwd → Occupied l w.volume → Guarded cwd l (a.run o w)

theorem guards_of_moves {a : Action ε α}
    (h : Moves cwd (fun v u => Occupied l v → Occupied l u) a) : Guards cwd l a := by
  intro o w hcwd occupied
  have moved := h o w hcwd
  exact ⟨moved.cwd.trans hcwd, fun _ _ => moved.now occupied, (moved.now occupied).not_dir⟩

theorem guards_pure (x : α) : Guards cwd l (pure x : Action ε α) :=
  guards_of_moves (moves_pure (fun _ h => h) x)

theorem guards_throw (e : ε) : Guards cwd l (throw e : Action ε α) :=
  guards_of_moves (moves_throw (fun _ h => h) e)

theorem guards_look (f : Volume → Location → α) : Guards cwd l (look f : Action ε α) :=
  guards_of_moves (moves_look (fun _ h => h) f)

theorem guards_mapError (f : ε → ε') {a : Action ε α} (h : Guards cwd l a) :
    Guards cwd l (a.mapError f) := by
  intro o w hcwd occupied
  obtain ⟨stays, kept, spared⟩ := h o w hcwd occupied
  rw [run_mapError]
  rcases run : a.run o w with ⟨e | x, w₁⟩
  · rw [run] at stays spared
    exact guarded_error stays spared
  · rw [run] at stays kept
    exact guarded_ok stays (kept x rfl)

theorem guards_bind {a : Action ε α} {f : α → Action ε β} (h : Guards cwd l a)
    (g : ∀ x, Guards cwd l (f x)) : Guards cwd l (a >>= f) := by
  intro o w hcwd occupied
  obtain ⟨stays, kept, spared⟩ := h o w hcwd occupied
  rw [run_bind]
  rcases run : a.run o w with ⟨e | x, w₁⟩
  · rw [run] at stays spared
    exact guarded_error stays spared
  · rw [run] at stays kept
    exact g x o w₁ stays (kept x rfl)

theorem guards_forM {f : α → Action ε Unit} {as : List α} (h : ∀ a ∈ as, Guards cwd l (f a)) :
    Guards cwd l (as.forM f) := by
  induction as with
  | nil => exact guards_pure ()
  | cons a as ih => exact guards_bind (h a (by simp)) fun _ => ih fun x hx => h x (by simp [hx])

/-- An action that is refused or puts something new at a path. -/
def Puts (p : Path) (a : Action IoError α) : Prop := ∀ o w,
  (∃ e, a.run o w = (.error e, w)) ∨ ∃ x d n y,
    a.run o w = (.ok x, w.set (w.volume.put (n :: d) y)) ∧
      reachName w.volume w.cwd p = .ok (.name d n) ∧ w.volume.lookup (n :: d) = none ∧ y ≠ .dir

theorem puts_openNew (p : Path) (mode : Nat) :
    Puts p (.changeAt fun v cwd => v.openNew cwd p mode) := by
  intro o w
  rw [run_changeAt]
  cases h : w.volume.openNew w.cwd p mode with
  | error e => exact .inl ⟨e, rfl⟩
  | ok x =>
    obtain ⟨j, u⟩ := x
    obtain ⟨d, n, rfl, hL, hn, rfl⟩ := openNew_ok h
    exact .inr ⟨_, d, n, _, rfl, hL, hn, by simp⟩

theorem puts_makeLink (p : Path) (t : Bytes) :
    Puts p (.change fun v cwd => v.makeLink cwd t p) := by
  intro o w
  rw [run_change]
  cases h : w.volume.makeLink w.cwd t p with
  | error e => exact .inl ⟨e, rfl⟩
  | ok u =>
    obtain ⟨d, n, hL, _, hn, rfl⟩ := makeLink_ok h
    exact .inr ⟨_, d, n, _, rfl, hL, hn, by simp⟩

theorem Puts.guards {a : Action IoError α} (h : Puts p a) : Guards cwd l a := by
  intro o w hcwd occupied
  rcases h o w with ⟨e, run⟩ | ⟨x, d, n, y, run, _, hn, _⟩
  · rw [run]
    exact guarded_error hcwd occupied.not_dir
  · rw [run]
    exact guarded_ok hcwd (occupied.put y hn)

/-- What has been removed to make room is made at the same place, or the action fails. -/
theorem guards_replacing {a : Action IoError α} (h : Puts p a) : Guards cwd l (replacing p a) := by
  refine guards_mapError _ fun o w hcwd occupied => ?_
  rw [run_tryCatch]
  rcases h o w with ⟨e, run⟩ | ⟨x, d, n, y, run, _, hn, _⟩
  · rw [run]
    simp only
    split
    · rw [run_bind]
      cases refused : o.refuses (.remove p) w.toView with
      | some x =>
        rw [run_removeFileIfThere_of_refused refused]
        exact guarded_error hcwd occupied.not_dir
      | none =>
      rw [run_removeFileIfThere_of_permitted refused, run_ifThere, run_change]
      cases removed : w.volume.removeFile w.cwd p with
      | error e' =>
        by_cases missing : e' = .system .noEntry
        · simp only [if_pos missing]
          exact h.guards o w hcwd occupied
        · simp only [if_neg missing]
          exact guarded_error hcwd occupied.not_dir
      | ok v =>
        simp only
        obtain ⟨d, n, y, hL, _, _, _, rfl⟩ := removeFile_ok removed
        by_cases here : l = n :: d
        · subst here
          rcases h o (w.set (w.volume.erase (n :: d))) with ⟨e, run⟩ | ⟨x, d', n', y, run, hL', _, hy⟩
          · rw [run]
            refine guarded_error hcwd ?_
            rw [World.set_volume, lookup_erase _ _ (by simp), if_pos rfl]
            simp
          · have same := (thins_erase w.volume (n :: d)).reachName hL'
            rw [World.set_cwd, hL] at same
            cases same
            rw [run]
            exact guarded_ok hcwd (occupied_put (w.volume.erase (n :: d)) n d hy)
        · refine h.guards o (w.set _) hcwd ?_
          obtain ⟨x, hx, hd⟩ := occupied
          exact ⟨x, (lookup_erase_ne w.volume here).trans hx, hd⟩
    · exact guarded_error hcwd occupied.not_dir
  · rw [run]
    have after := occupied.put y hn
    exact ⟨hcwd, fun _ _ => after, after.not_dir⟩

theorem guards_putFile (body : Body) (mode : Option Nat) : Guards cwd l (putFile p body mode) := by
  refine guards_bind (guards_replacing (puts_openNew p plainMode)) fun j => ?_
  intro o w hcwd occupied
  have written : Occupied l (w.set (w.volume.append j body.bytes)).volume := occupied.adjust j _
  by_cases cut : body.cut = true
  · simp only [cut, if_true]
    exact guarded_error hcwd written.not_dir
  · simp only [cut]
    cases mode with
    | none => exact guarded_ok hcwd written
    | some m => exact guarded_ok hcwd (written.adjust j ({ · with mode := m }))

theorem guards_mustBeInside (dest p : Path) : Guards cwd l (mustBeInside dest p) := by
  refine guards_of_moves fun o w hcwd => ?_
  rw [run_mustBeInside_world]
  exact .refl (fun _ h => h) w

theorem guards_ensureDir (p : Path) : Guards cwd l (Action.ensureDir p) :=
  guards_of_moves (moves_ensureDir_of (fun _ h => h) (fun _ _ _ f g h => g (f h))
    fun _ _ _ _ g h => h.makeDir g)

/-- A member leaves the place occupied, or ends the unpacking. -/
theorem guards_putKind : Guards cwd l (putKind dest p m) := by
  unfold putKind
  split
  · refine guards_of_moves (moves_tryCatch (fun _ _ _ f g h => g (f h)) (moves_mapError _ ?_) fun e => ?_)
    · exact moves_change (fun _ h => h) fun v u g h => h.makeDir g
    · refine moves_bind (fun _ _ _ f g h => g (f h)) (moves_look (fun _ h => h) _) fun x => ?_
      split
      · exact moves_pure (fun _ h => h) _
      · exact moves_throw (fun _ h => h) _
  · exact guards_putFile _ _
  · refine guards_bind (guards_of_moves (moves_linkText _ fun _ h => h)) fun t => ?_
    exact guards_replacing (puts_makeLink p t)
  · refine guards_bind (guards_of_moves (moves_linkText _ fun _ h => h)) fun t => ?_
    refine guards_bind (guards_mustBeInside _ _) fun _ => guards_of_moves (moves_mapError _ ?_)
    exact moves_change (fun _ h => h) fun v u g h => h.hardLink g
  · exact guards_pure _

theorem guards_putMember (dest : Path) (m : Member) : Guards cwd l (putMember dest m) := by
  unfold putMember
  split
  · exact guards_pure _
  refine guards_bind (guards_bind ?_ fun ps => guards_forM fun p _ => ?_) fun _ =>
    guards_bind (guards_mustBeInside _ _) fun _ => guards_putKind
  · exact guards_of_moves (moves_missingAbove (fun _ h => h) (fun _ _ _ f g h => g (f h)) _ _)
  · refine guards_bind ?_ fun _ => guards_mapError _ (guards_ensureDir p)
    cases p.parent? with
    | none => exact guards_pure _
    | some q => exact guards_mustBeInside _ q

/-- Where a file or a link stands, no archive is unpacked to a directory. -/
theorem guards_unpack (a : Archive) (dest : Path) : Guards cwd l (unpack a dest) := by
  have put : ∀ dest (ms : List Member), Guards cwd l (ms.forM (putMember dest)) :=
    fun dest ms => guards_forM fun m _ => guards_putMember dest m
  have all : ∀ dest, Guards cwd l (putAll a dest) := by
    intro dest
    refine guards_bind (put dest _) fun _ => ?_
    simp only
    split
    · exact guards_bind (guards_throw _) fun _ => put dest _
    · exact put dest _
  have rest : Guards cwd l (do
      let dest ← Action.look (settled · · dest)
      putAll a dest : Unpacking Unit) := guards_bind (guards_look _) all
  unfold unpack
  refine guards_bind (guards_look _) fun there => ?_
  simp only
  split
  · exact guards_bind (guards_mapError _ (guards_ensureDir dest)) fun _ => rest
  · exact rest

end Unpack
end PinnedDeps
