import PinnedDeps.Proofs.Action.Writing

/-!
What a run records. The newest event comes first, and the events of a run leave the volume that the
run ends with. Actions on files record changes and nothing else.
-/
namespace PinnedDeps

/-- The volume that events leave, if the first of them found the given one. -/
def leaves (v : Volume) : List Event → Volume
  | [] => v
  | .changed u :: _ => u
  | .started _ _ (.ok out) :: _ => out.volume
  | .started _ _ (.error _) :: es => leaves v es
  | .requested _ :: es => leaves v es

/-- The commands among events, the one that was started first in front. -/
def commands (es : List Event) : List Command :=
  es.reverse.filterMap fun
    | .started c _ _ => some c
    | _ => none

def Event.IsChange : Event → Prop
  | .changed _ => True
  | _ => False

/-- No program has been started. -/
def Event.IsOwn : Event → Prop
  | .started .. => False
  | _ => True

theorem Event.IsChange.isOwn {e : Event} (h : e.IsChange) : e.IsOwn := by
  cases e with
  | started => exact h
  | _ => trivial

theorem leaves_append (v : Volume) (es fs : List Event) :
    leaves v (es ++ fs) = leaves (leaves v fs) es := by
  induction es with
  | nil => rfl
  | cons e es ih =>
    cases e with
    | changed u => rfl
    | requested rs => exact ih
    | started c b r =>
      cases r with
      | ok out => rfl
      | error x => exact ih

theorem commands_append (es fs : List Event) : commands (es ++ fs) = commands fs ++ commands es := by
  unfold commands
  rw [List.reverse_append, List.filterMap_append]

theorem commands_of_own {es : List Event} (h : ∀ e ∈ es, e.IsOwn) : commands es = [] := by
  refine List.filterMap_eq_nil_iff.2 fun e he => ?_
  cases e with
  | changed u => rfl
  | requested rs => rfl
  | started c b r => exact (h _ (List.mem_reverse.1 he)).elim

theorem commands_of_changes {es : List Event} (h : ∀ e ∈ es, e.IsChange) : commands es = [] :=
  commands_of_own fun e he => (h e he).isOwn

/-- Where no program was started, the volume is that of the start or that of some change. -/
theorem leaves_of_own {v : Volume} {es : List Event} (h : ∀ e ∈ es, e.IsOwn) :
    leaves v es = v ∨ .changed (leaves v es) ∈ es := by
  induction es with
  | nil => exact .inl rfl
  | cons e es ih =>
    have rest := ih fun x hx => h x (by simp [hx])
    cases e with
    | changed u => exact .inr (by simp [leaves])
    | requested rs => exact rest.imp_right fun g => by simp [leaves, g]
    | started c b r => exact (h (.started c b r) (by simp)).elim

/-- Each of the events is allowed after those before it. -/
def Gates (P : List Event → Event → Prop) (past es : List Event) : Prop :=
  ∀ later e earlier, es = later ++ e :: earlier → P (earlier ++ past) e

section Gates

variable {P Q : List Event → Event → Prop} {past es fs : List Event}

theorem gates_nil (P : List Event → Event → Prop) (past : List Event) : Gates P past [] := by
  intro later e earlier h
  simp at h

theorem gates_singleton {e : Event} (h : P past e) : Gates P past [e] := by
  intro later x earlier split
  cases later with
  | nil =>
    obtain ⟨rfl, rfl⟩ := List.cons.inj split
    exact h
  | cons y later => simp at split

theorem Gates.imp (h : Gates P past es) (g : ∀ earlier e, P earlier e → Q earlier e) :
    Gates Q past es := fun later e earlier split => g _ e (h later e earlier split)

theorem Gates.all {K : Event → Prop} (h : Gates P past es) (g : ∀ earlier e, P earlier e → K e) :
    ∀ e ∈ es, K e := by
  intro e he
  obtain ⟨later, earlier, split⟩ := List.append_of_mem he
  exact g _ e (h later e earlier split)

theorem Gates.append (h : Gates P past es) (g : Gates P (es ++ past) fs) : Gates P past (fs ++ es) := by
  intro later e earlier split
  rcases List.append_eq_append_iff.1 split with ⟨a, _, found⟩ | ⟨a, hfs, found⟩
  · exact h a e earlier found
  · cases a with
    | nil => exact h [] e earlier found.symm
    | cons x a =>
      rw [List.cons_append] at found
      obtain ⟨rfl, rfl⟩ := List.cons.inj found
      rw [List.append_assoc]
      exact g later e a hfs

end Gates

namespace Action

variable {ε ε' α β : Type} {o : Machine} {w w₁ w' : World} {P : Event → Prop} {es fs : List Event}

/-- From one world to another the given events have been recorded. -/
structure Recorded (new : List Event) (w w' : World) : Prop where
  cwd : w'.cwd = w.cwd
  trace : w'.trace = new ++ w.trace
  leaves : w'.volume = leaves w.volume new

theorem Recorded.refl (w : World) : Recorded [] w w := ⟨rfl, rfl, rfl⟩

theorem Recorded.trans (h : Recorded es w w₁) (g : Recorded fs w₁ w') :
    Recorded (fs ++ es) w w' :=
  ⟨g.cwd.trans h.cwd, by rw [g.trace, h.trace, List.append_assoc],
    by rw [g.leaves, h.leaves, leaves_append]⟩

/-- What a run has passed is known of the volume before each of its changes, and of the change. -/
theorem Recorded.agree {R : Volume → Volume → Prop} {later earlier : List Event} {u : Volume}
    (h : Recorded (later ++ .changed u :: earlier) w w') (moved : Moved R w w') (hr : ∀ v, R v v)
    (own : ∀ e ∈ earlier, e.IsOwn) : R w.volume (PinnedDeps.leaves w.volume earlier) ∧ R w.volume u := by
  obtain ⟨new, trace, passed⟩ := moved.passed
  obtain rfl := List.append_cancel_right (h.trace.symm.trans trace)
  refine ⟨?_, passed u (by simp)⟩
  rcases leaves_of_own (v := w.volume) own with same | changed
  · rw [same]
    exact hr _
  · exact passed _ (by simp [changed])

/-- From every state of one kind, a run records events that are allowed after those before them, and
if it succeeds it comes to a state of another kind. A state is the events so far and the world. -/
def Passes (P : List Event → Event → Prop) (pre : List Event → World → Prop) (a : Action ε α)
    (post : List Event → World → Prop) (o : Machine) : Prop :=
  ∀ past w, pre past w → ∃ es, Recorded es w (a.run o w).2 ∧ Gates P past es ∧
    ∀ x, (a.run o w).1 = .ok x → post (es ++ past) (a.run o w).2

section Passes

variable {Q : List Event → Event → Prop} {pre mid post : List Event → World → Prop}

theorem Passes.bind {a : Action ε α} {f : α → Action ε β} (h : Passes Q pre a mid o)
    (g : ∀ x, Passes Q mid (f x) post o) : Passes Q pre (a >>= f) post o := by
  intro past w start
  obtain ⟨es, recorded, gates, ends⟩ := h past w start
  rw [run_bind]
  rcases run : a.run o w with ⟨e | x, w₁⟩
  · rw [run] at recorded
    refine ⟨es, recorded, gates, fun x hx => ?_⟩
    cases hx
  · rw [run] at recorded ends
    obtain ⟨fs, recorded', gates', ends'⟩ := g x (es ++ past) w₁ (ends x rfl)
    refine ⟨fs ++ es, recorded.trans recorded', gates.append gates', ?_⟩
    rw [List.append_assoc]
    exact ends'

theorem passes_mapError (f : ε → ε') {a : Action ε α} (h : Passes Q pre a post o) :
    Passes Q pre (a.mapError f) post o := by
  intro past w start
  obtain ⟨es, recorded, gates, ends⟩ := h past w start
  rw [run_mapError]
  refine ⟨es, recorded, gates, fun x hx => ?_⟩
  rcases run : a.run o w with ⟨e | y, w₁⟩
  · rw [run] at hx
    cases hx
  · rw [run] at ends
    exact ends y rfl

/-- An action that leaves the world as it is. -/
theorem passes_still {a : Action ε α} (h : ∀ w, (a.run o w).2 = w) : Passes Q pre a pre o := by
  intro past w start
  rw [h w]
  exact ⟨[], .refl w, gates_nil Q past, fun _ _ => start⟩

theorem passes_discard {a : Action ε α} (h : Passes Q pre a post o) :
    Passes Q pre (discard a) post o := by
  rw [show discard a = a >>= fun _ => pure () from map_eq_pure_bind _ a]
  exact h.bind fun _ => passes_still fun _ => rfl

end Passes

/-- All events of a run are of one kind. -/
def Records (P : Event → Prop) (a : Action ε α) : Prop :=
  ∀ o w, ∃ es, Recorded es w (a.run o w).2 ∧ ∀ e ∈ es, P e

theorem records_pure (a : α) : Records P (pure a : Action ε α) :=
  fun _ w => ⟨[], .refl w, by simp⟩

theorem records_throw (e : ε) : Records P (throw e : Action ε α) :=
  fun _ w => ⟨[], .refl w, by simp⟩

theorem records_look (f : Volume → Location → α) : Records P (look f : Action ε α) :=
  fun _ w => ⟨[], .refl w, by simp⟩

theorem records_ask (f : Volume → Location → Except IoError α) : Records P (ask f) := by
  intro o w
  rw [run_ask]
  exact ⟨[], .refl w, by simp⟩

theorem records_mapError (f : ε → ε') {a : Action ε α} (h : Records P a) :
    Records P (a.mapError f) := fun o w => h o w

theorem records_bind {a : Action ε α} {f : α → Action ε β} (h : Records P a)
    (g : ∀ x, Records P (f x)) : Records P (a >>= f) := by
  intro o w
  obtain ⟨es, hes, he⟩ := h o w
  rw [run_bind]
  rcases run : a.run o w with ⟨e | x, w₁⟩
  · rw [run] at hes
    exact ⟨es, hes, he⟩
  · rw [run] at hes
    obtain ⟨fs, hfs, hf⟩ := g x o w₁
    exact ⟨fs ++ es, hes.trans hfs, List.forall_mem_append.2 ⟨hf, he⟩⟩

theorem records_tryCatch {a : Action ε α} {f : ε → Action ε α} (h : Records P a)
    (g : ∀ e, Records P (f e)) : Records P (tryCatch a f) := by
  intro o w
  obtain ⟨es, hes, he⟩ := h o w
  rw [run_tryCatch]
  rcases run : a.run o w with ⟨e | x, w₁⟩
  · rw [run] at hes
    obtain ⟨fs, hfs, hf⟩ := g e o w₁
    exact ⟨fs ++ es, hes.trans hfs, List.forall_mem_append.2 ⟨hf, he⟩⟩
  · rw [run] at hes
    exact ⟨es, hes, he⟩

theorem records_forM {f : α → Action ε Unit} (h : ∀ a, Records P (f a)) (as : List α) :
    Records P (as.forM f) := by
  induction as with
  | nil => exact records_pure ()
  | cons a as ih => exact records_bind (h a) fun _ => ih

theorem records_ifThere {a : Action IoError Unit} (h : Records P a) : Records P (ifThere a) := by
  refine records_tryCatch h fun e => ?_
  split
  · exact records_pure ()
  · exact records_throw e

theorem records_commit (v : Volume) : Records Event.IsChange (commit v : Action ε Unit) :=
  fun _ _ => ⟨[.changed v], ⟨rfl, rfl, rfl⟩, by simp [Event.IsChange]⟩

theorem records_change (f : Volume → Location → Except IoError Volume) :
    Records Event.IsChange (change f) :=
  records_bind (records_ask f) fun v => records_commit v

theorem records_permitted (c : Call) {a : Action IoError α} (h : Records P a) :
    Records P (do permit c; a) := by
  intro o w
  rw [run_permitted]
  cases o.refuses c w.toView with
  | some e => exact ⟨[], .refl w, by simp⟩
  | none => exact h o w

theorem records_changeAt (f : Volume → Location → Except IoError (Location × Volume)) :
    Records Event.IsChange (changeAt f) :=
  records_bind (records_ask f) fun x => records_bind (records_commit x.2) fun _ => records_pure _

theorem records_commitLook (f : Volume → Location → Volume) :
    Records Event.IsChange (do commit (← look f) : Action ε Unit) :=
  records_bind (records_look f) fun v => records_commit v

/-- A run of events of one kind passes if each is allowed after any others of the kind. -/
theorem passes_of_records {Q : List Event → Event → Prop} {pre post : List Event → World → Prop}
    {a : Action ε α} (h : Records P a)
    (allowed : ∀ past w, pre past w → ∀ earlier e, (∀ x ∈ earlier, P x) → P e →
      Q (earlier ++ past) e)
    (ends : ∀ past w es x, pre past w → Recorded es w (a.run o w).2 → (∀ e ∈ es, P e) →
      (a.run o w).1 = .ok x → post (es ++ past) (a.run o w).2) : Passes Q pre a post o := by
  intro past w start
  obtain ⟨es, recorded, kind⟩ := h o w
  refine ⟨es, recorded, ?_, fun x hx => ends past w es x start recorded kind hx⟩
  rintro later e earlier rfl
  exact allowed past w start earlier e (fun x hx => kind x (by simp [hx])) (kind e (by simp))

section Files

theorem records_makeNearest (qs missing : List Path) :
    Records Event.IsChange (makeNearest qs missing) := by
  induction qs generalizing missing with
  | nil => exact records_pure _
  | cons q above ih =>
    rw [makeNearest]
    split
    · exact records_pure _
    refine records_bind (records_tryCatch ?_ fun e => ?_) fun made => ?_
    · exact records_bind (records_change _) fun _ => records_pure _
    · split
      · exact records_pure _
      refine records_bind (records_look _) fun b => ?_
      split
      · exact records_pure _
      · exact records_throw _
    · split
      · exact records_pure _
      · exact ih _

theorem records_ensureMade (p : Path) : Records Event.IsChange (ensureMade p) := by
  refine records_tryCatch (records_change _) fun e => records_bind (records_look _) fun b => ?_
  split
  · exact records_pure _
  · exact records_throw _

theorem records_ensureDir (p : Path) : Records Event.IsChange (ensureDir p) :=
  records_bind (records_makeNearest _ _) fun ps => records_forM records_ensureMade ps

theorem records_removeFileIfThere (p : Path) : Records Event.IsChange (removeFileIfThere p) :=
  records_ifThere (records_permitted _ (records_change _))

theorem records_removeTree (p : Path) : Records Event.IsChange (removeTree p) := by
  refine records_bind (records_ask _) fun x => ?_
  split
  · exact records_change _
  · exact records_throw _
  · refine records_bind (records_look _) fun ls => ?_
    exact records_bind (records_forM (fun _ => records_commitLook _) ls) fun _ => records_change _

theorem records_removeTreeIfThere (p : Path) : Records Event.IsChange (removeTreeIfThere p) :=
  records_ifThere (records_removeTree p)

theorem records_writeBytes (l : Location) (b : Bytes) :
    Records Event.IsChange (writeBytes l b) := by
  intro o w
  rw [run_writeBytes]
  cases o.cutsShort l b w.toView with
  | none => exact ⟨[.changed _], ⟨rfl, rfl, rfl⟩, by simp [Event.IsChange]⟩
  | some x => exact ⟨[.changed _], ⟨rfl, rfl, rfl⟩, by simp [Event.IsChange]⟩

theorem records_writeFile (p : Path) (b : Bytes) : Records Event.IsChange (writeFile p b) :=
  records_permitted _ (records_bind (records_changeAt _) fun l => records_writeBytes l b)

theorem records_copyFile (src dst : Path) : Records Event.IsChange (copyFile src dst) := by
  refine records_permitted _ (records_bind (records_ask _) fun x => ?_)
  split
  · refine records_permitted _ (records_bind (records_changeAt _) fun l => ?_)
    refine records_permitted _ (records_bind (records_look _) fun v => ?_)
    exact records_bind (records_commit v) fun _ => records_writeBytes _ _
  · exact records_throw _

end Files

end Action
end PinnedDeps
