import PinnedDeps.Action.Files

/-!
Running an action: one equation for each way to put actions together, and the volumes that a run
passes. `Moves R` says that `R` leads from the volume at the start to every volume on the way.
-/
namespace PinnedDeps

/-- The world once a volume has become the current one. -/
def World.set (w : World) (v : Volume) : World :=
  { w with volume := v, trace := .changed v :: w.trace }

@[simp] theorem World.set_volume (w : World) (v : Volume) : (w.set v).volume = v := rfl

@[simp] theorem World.set_cwd (w : World) (v : Volume) : (w.set v).cwd = w.cwd := rfl

namespace Action

variable {ε ε' α β : Type} {o : Machine} {w w' : World}

theorem run_bind (a : Action ε α) (f : α → Action ε β) :
    (a >>= f).run o w = match a.run o w with
      | (.ok x, w₁) => (f x).run o w₁
      | (.error e, w₁) => (.error e, w₁) := by
  show (ExceptT.bind _ _ : ExceptT ε (StateM World) β) w = _
  simp only [ExceptT.bind, ExceptT.mk, bind, StateT.bind, ExceptT.bindCont, run]
  show (match (a o w) with | (x, w₁) => _) = _
  generalize a o w = r
  obtain ⟨x, w₁⟩ := r
  cases x <;> rfl

theorem run_tryCatch (a : Action ε α) (f : ε → Action ε α) :
    (tryCatch a f).run o w = match a.run o w with
      | (.ok x, w₁) => (.ok x, w₁)
      | (.error e, w₁) => (f e).run o w₁ := by
  show (ExceptT.tryCatch _ _ : ExceptT ε (StateM World) α) w = _
  simp only [ExceptT.tryCatch, ExceptT.mk, bind, StateT.bind, run]
  show (match (a o w) with | (x, w₁) => _) = _
  generalize a o w = r
  obtain ⟨x, w₁⟩ := r
  cases x <;> rfl

theorem run_mapError (f : ε → ε') (a : Action ε α) :
    (a.mapError f).run o w = ((a.run o w).1.mapError f, (a.run o w).2) := rfl

theorem world_discard (a : Action ε α) : ((discard a).run o w).2 = (a.run o w).2 := by
  rw [show discard a = a >>= fun _ => pure () from map_eq_pure_bind _ a, run_bind]
  rcases a.run o w with ⟨x, w₁⟩
  cases x <;> rfl

theorem run_look (f : Volume → Location → α) :
    (look f : Action ε α).run o w = (.ok (f w.volume w.cwd), w) := rfl

theorem run_ask (f : Volume → Location → Except IoError α) :
    (ask f).run o w = (f w.volume w.cwd, w) := by
  show (ask.liftExcept (f w.volume w.cwd)).run o w = _
  cases f w.volume w.cwd <;> rfl

theorem run_change (f : Volume → Location → Except IoError Volume) :
    (change f).run o w = match f w.volume w.cwd with
      | .ok v => (.ok (), w.set v)
      | .error e => (.error e, w) := by
  unfold change
  rw [run_bind, run_ask]
  cases f w.volume w.cwd <;> rfl

theorem run_changeAt (f : Volume → Location → Except IoError (Location × Volume)) :
    (changeAt f).run o w = match f w.volume w.cwd with
      | .ok (l, v) => (.ok l, w.set v)
      | .error e => (.error e, w) := by
  unfold changeAt
  rw [run_bind, run_ask]
  cases f w.volume w.cwd <;> rfl

theorem run_permit (c : Call) : (permit c).run o w =
    ((match o.refuses c w.toView with
      | some e => .error (.system e)
      | none => .ok ()), w) := by
  show (match o.refuses c w.toView with
    | some e => throw (.system e)
    | none => return () : Action IoError Unit).run o w = _
  cases o.refuses c w.toView <;> rfl

/-- A call that may be refused either is, or what follows it is done. -/
theorem run_permitted (c : Call) (a : Action IoError α) : (do permit c; a).run o w =
    match o.refuses c w.toView with
      | some e => (.error (.system e), w)
      | none => a.run o w := by
  rw [run_bind, run_permit]
  cases o.refuses c w.toView <;> rfl

theorem run_permitted_ok {c : Call} {a : Action IoError α} {x : α} :
    (do permit c; a).run o w = (.ok x, w') ↔
      o.refuses c w.toView = none ∧ a.run o w = (.ok x, w') := by
  rw [run_permitted]
  cases o.refuses c w.toView <;> simp

theorem run_ifThere (a : Action IoError Unit) :
    (ifThere a).run o w = match a.run o w with
      | (.ok x, w₁) => (.ok x, w₁)
      | (.error e, w₁) => (if e = .system .noEntry then .ok () else .error e, w₁) := by
  unfold ifThere
  rw [run_tryCatch]
  rcases a.run o w with ⟨x, w₁⟩
  cases x with
  | ok x => rfl
  | error e =>
    by_cases h : e = .system .noEntry
    · simp only [if_pos h]
      rfl
    · simp only [if_neg h]
      rfl

theorem forM_cons (f : α → Action ε Unit) (a : α) (as : List α) :
    (a :: as).forM f = (do f a; as.forM f) := rfl

theorem forM_append (f : α → Action ε Unit) (as bs : List α) :
    (as ++ bs).forM f = (do as.forM f; bs.forM f) := by
  induction as with
  | nil => exact (pure_bind () fun _ => bs.forM f).symm
  | cons a as ih => rw [List.cons_append, forM_cons, forM_cons, ih, bind_assoc]

theorem run_bind_of_ok {a : Action ε α} {f : α → Action ε β} {x : α} {w₁ : World}
    (h : a.run o w = (.ok x, w₁)) : (a >>= f).run o w = (f x).run o w₁ := by
  rw [run_bind, h]

theorem run_bind_of_error {a : Action ε α} {f : α → Action ε β} {e : ε} {w₁ : World}
    (h : a.run o w = (.error e, w₁)) : (a >>= f).run o w = (.error e, w₁) := by
  rw [run_bind, h]

/-- A run that ends well has ended well in all of its parts. -/
theorem run_bind_ok {a : Action ε α} {f : α → Action ε β} {b : β} :
    (a >>= f).run o w = (.ok b, w') ↔
      ∃ x w₁, a.run o w = (.ok x, w₁) ∧ (f x).run o w₁ = (.ok b, w') := by
  rw [run_bind]
  rcases a.run o w with ⟨x, w₁⟩
  cases x with
  | ok x =>
    constructor
    · exact fun h => ⟨x, w₁, rfl, h⟩
    · rintro ⟨_, _, h, g⟩
      cases h
      exact g
  | error e =>
    constructor
    · intro h
      cases h
    · rintro ⟨_, _, h, _⟩
      cases h

/-- A run that fails has failed in one of its parts. -/
theorem run_bind_error {a : Action ε α} {f : α → Action ε β} {e : ε} :
    (a >>= f).run o w = (.error e, w') ↔ a.run o w = (.error e, w') ∨
      ∃ x w₁, a.run o w = (.ok x, w₁) ∧ (f x).run o w₁ = (.error e, w') := by
  rw [run_bind]
  rcases a.run o w with ⟨x, w₁⟩
  cases x with
  | ok x =>
    constructor
    · exact fun h => .inr ⟨x, w₁, rfl, h⟩
    · rintro (h | ⟨_, _, h, g⟩)
      · cases h
      · cases h
        exact g
  | error e' =>
    constructor
    · intro h
      cases h
      exact .inl rfl
    · rintro (h | ⟨_, _, h, _⟩)
      · cases h
        rfl
      · cases h

theorem run_mapError_ok {f : ε → ε'} {a : Action ε α} {b : α} :
    (a.mapError f).run o w = (.ok b, w') ↔ a.run o w = (.ok b, w') := by
  rw [run_mapError]
  rcases a.run o w with ⟨x | x, w₁⟩
  · show (Except.error (f x), w₁) = _ ↔ _
    simp
  · show (Except.ok x, w₁) = _ ↔ _
    simp

theorem run_mapError_error {f : ε → ε'} {a : Action ε α} {e : ε'} :
    (a.mapError f).run o w = (.error e, w') ↔ ∃ e₁, e = f e₁ ∧ a.run o w = (.error e₁, w') := by
  rw [run_mapError]
  rcases a.run o w with ⟨e₁ | x, w₁⟩
  · show (Except.error (f e₁), w₁) = _ ↔ _
    constructor
    · intro h
      cases h
      exact ⟨e₁, rfl, rfl⟩
    · rintro ⟨_, rfl, h⟩
      cases h
      rfl
  · show (Except.ok x, w₁) = _ ↔ _
    simp

/-- How a world has come from an earlier one, if `R` leads to every volume that was passed. -/
structure Moved (R : Volume → Volume → Prop) (w w' : World) : Prop where
  cwd : w'.cwd = w.cwd
  now : R w.volume w'.volume
  passed : ∃ new, w'.trace = new ++ w.trace ∧ ∀ v, Event.changed v ∈ new → R w.volume v

/-- From a working directory, `R` leads from the volume at the start of a run to every volume that
the run passes. -/
def Moves (cwd : Location) (R : Volume → Volume → Prop) (a : Action ε α) : Prop :=
  ∀ o w, w.cwd = cwd → Moved R w (a.run o w).2

section Moves

variable {R : Volume → Volume → Prop} {cwd : Location}

theorem Moved.refl (hR : ∀ v, R v v) (w : World) : Moved R w w :=
  ⟨rfl, hR _, [], rfl, by simp⟩

theorem Moved.trans (hR : ∀ u v x, R u v → R v x → R u x) {w₁ : World} (h : Moved R w w₁)
    (g : Moved R w₁ w') : Moved R w w' := by
  obtain ⟨new, hn, hv⟩ := h.passed
  obtain ⟨new', hn', hv'⟩ := g.passed
  refine ⟨g.cwd.trans h.cwd, hR _ _ _ h.now g.now, new' ++ new, by rw [hn', hn, List.append_assoc], ?_⟩
  intro v hm
  rcases List.mem_append.1 hm with hm | hm
  · exact hR _ _ _ h.now (hv' v hm)
  · exact hv v hm

theorem Moved.imp {R' : Volume → Volume → Prop} (h : Moved R w w')
    (g : ∀ v, R w.volume v → R' w.volume v) : Moved R' w w' := by
  obtain ⟨new, hn, hv⟩ := h.passed
  exact ⟨h.cwd, g _ h.now, new, hn, fun v hm => g v (hv v hm)⟩

theorem Moved.set {v : Volume} (h : R w.volume v) : Moved R w (w.set v) := by
  refine ⟨rfl, h, [.changed v], rfl, ?_⟩
  intro x hx
  cases List.mem_singleton.1 hx
  exact h

theorem Moved.ended {a : Action ε α} {r : Except ε α} (h : Moved R w (a.run o w).2)
    (run : a.run o w = (r, w')) : Moved R w w' := by rwa [run] at h

theorem moved_mapError (f : ε → ε') {a : Action ε α} (h : Moved R w (a.run o w).2) :
    Moved R w ((a.mapError f).run o w).2 := h

theorem Moves.imp {R' : Volume → Volume → Prop} {a : Action ε α} (h : Moves cwd R a)
    (g : ∀ v u, R v u → R' v u) : Moves cwd R' a := fun o w hw => (h o w hw).imp (g _)

variable (hr : ∀ v, R v v) (ht : ∀ u v x, R u v → R v x → R u x)

section
include hr

theorem moves_pure (a : α) : Moves cwd R (pure a : Action ε α) := fun _ w _ => .refl hr w

theorem moves_throw (e : ε) : Moves cwd R (throw e : Action ε α) := fun _ w _ => .refl hr w

theorem moves_look (f : Volume → Location → α) : Moves cwd R (look f : Action ε α) :=
  fun _ w _ => .refl hr w

theorem moves_ask (f : Volume → Location → Except IoError α) : Moves cwd R (ask f) := by
  intro o w _
  rw [run_ask]
  exact .refl hr w

theorem moves_permit (c : Call) : Moves cwd R (permit c) := by
  intro o w _
  rw [run_permit]
  exact .refl hr w

theorem moves_change {f : Volume → Location → Except IoError Volume}
    (h : ∀ v v', f v cwd = .ok v' → R v v') : Moves cwd R (change f) := by
  rintro o w rfl
  rw [run_change]
  cases hf : f w.volume w.cwd with
  | error e => exact .refl hr w
  | ok v => exact .set (h _ _ hf)

end

theorem moves_mapError (f : ε → ε') {a : Action ε α} (h : Moves cwd R a) :
    Moves cwd R (a.mapError f) := fun o w hw => moved_mapError f (h o w hw)

include ht

theorem Moved.bind {a : Action ε α} {f : α → Action ε β} (h : Moved R w (a.run o w).2)
    (g : ∀ x w₁, a.run o w = (.ok x, w₁) → Moved R w₁ ((f x).run o w₁).2) :
    Moved R w ((a >>= f).run o w).2 := by
  rw [run_bind]
  rcases ha : a.run o w with ⟨x, w₁⟩
  rw [ha] at h
  cases x with
  | ok x => exact h.trans ht (g x w₁ ha)
  | error e => exact h

/-- The second part of a run may rely on what the first has come to. -/
theorem moves_bind_of {Q : α → Prop} {a : Action ε α} {f : α → Action ε β} (h : Moves cwd R a)
    (hq : ∀ o w x w₁, a.run o w = (.ok x, w₁) → Q x) (g : ∀ x, Q x → Moves cwd R (f x)) :
    Moves cwd R (a >>= f) := by
  intro o w hw
  refine (h o w hw).bind ht fun x w₁ ha => ?_
  have := (h o w hw).cwd
  rw [ha] at this
  exact g x (hq o w x w₁ ha) o w₁ (this.trans hw)

theorem moves_bind {a : Action ε α} {f : α → Action ε β} (h : Moves cwd R a)
    (g : ∀ x, Moves cwd R (f x)) : Moves cwd R (a >>= f) :=
  moves_bind_of (Q := fun _ => True) ht h (fun _ _ _ _ _ => trivial) fun x _ => g x

theorem moves_tryCatch {a : Action ε α} {f : ε → Action ε α} (h : Moves cwd R a)
    (g : ∀ e, Moves cwd R (f e)) : Moves cwd R (tryCatch a f) := by
  intro o w hw
  have := h o w hw
  rw [run_tryCatch]
  rcases ha : a.run o w with ⟨x, w₁⟩
  rw [ha] at this
  cases x with
  | ok x => exact this
  | error e => exact this.trans ht (g e o w₁ (this.cwd.trans hw))

include hr

theorem moves_permitted (c : Call) {a : Action IoError α} (h : Moves cwd R a) :
    Moves cwd R (do permit c; a) := moves_bind ht (moves_permit hr c) fun _ => h

theorem moves_forM {f : α → Action ε Unit} {as : List α} (h : ∀ a ∈ as, Moves cwd R (f a)) :
    Moves cwd R (as.forM f) := by
  induction as with
  | nil => exact moves_pure hr ()
  | cons a as ih =>
    rw [forM_cons]
    exact moves_bind ht (h a (by simp)) fun _ => ih fun x hx => h x (by simp [hx])

theorem moves_ifThere {a : Action IoError Unit} (h : Moves cwd R a) : Moves cwd R (ifThere a) := by
  refine moves_tryCatch ht h fun e => ?_
  split
  · exact moves_pure hr ()
  · exact moves_throw hr e

end Moves
end Action
end PinnedDeps
