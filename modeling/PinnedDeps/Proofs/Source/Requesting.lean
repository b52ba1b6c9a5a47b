import PinnedDeps.Proofs.Action.Recording
import PinnedDeps.Proofs.Source.Marker

/-!
The events of an acquisition. Unpacking only changes files, and the one request of an acquisition is
made while no marker is in sight.
-/
namespace PinnedDeps

open Volume PinnedDeps.Action

namespace Unpack

variable {dest p : Path} {m : Member}

theorem records_mustBeInside (dest p : Path) : Records Event.IsChange (mustBeInside dest p) := by
  refine records_bind (records_mapError _ (records_ask _)) fun x => ?_
  refine records_bind (records_mapError _ (records_ask _)) fun y => ?_
  show Records Event.IsChange (if Below x.1 y.1 then _ else _ : Unpacking Unit)
  split
  · exact records_pure _
  · exact records_throw _

theorem records_missingAbove (ps missing : List Path) :
    Records Event.IsChange (missingAbove ps missing) := by
  induction ps generalizing missing with
  | nil => exact records_pure _
  | cons p above ih =>
    rw [missingAbove]
    refine records_bind (records_look _) fun there => ?_
    split
    · exact records_pure _
    · exact ih _

theorem records_ensureParents (dest parent : Path) :
    Records Event.IsChange (ensureParents dest parent) := by
  refine records_bind (records_missingAbove _ _) fun ps => records_forM (fun p => ?_) ps
  refine records_bind ?_ fun _ => records_mapError _ (records_ensureDir p)
  cases p.parent? with
  | none => exact records_pure _
  | some above => exact records_mustBeInside dest above

theorem records_makeDirAt (p : Path) : Records Event.IsChange (makeDirAt p) := by
  refine records_tryCatch (records_mapError _ (records_change _)) fun e => ?_
  refine records_bind (records_look _) fun x => ?_
  split
  · exact records_pure _
  · exact records_throw _

theorem records_replacing {α : Type} {a : Action IoError α} (h : Records Event.IsChange a) :
    Records Event.IsChange (replacing p a) := by
  refine records_mapError _ (records_tryCatch h fun e => ?_)
  split
  · exact records_bind (records_removeFileIfThere p) fun _ => h
  · exact records_throw _

theorem records_putFile (body : Body) (mode : Option Nat) :
    Records Event.IsChange (putFile p body mode) := by
  refine records_bind (records_replacing (records_changeAt _)) fun l => ?_
  refine records_bind (records_look _) fun v => records_bind (records_commit v) fun _ => ?_
  cases mode with
  | none =>
    simp only
    split
    · exact records_bind (records_throw _) fun _ => records_pure _
    · exact records_pure _
  | some m =>
    simp only
    split
    · exact records_bind (records_throw _) fun _ => records_commitLook _
    · exact records_commitLook _

theorem records_linkText (target : Option Bytes) : Records Event.IsChange (linkText target) := by
  unfold linkText
  split
  · exact records_throw _
  · exact records_throw _
  · exact records_pure _

theorem records_putKind : Records Event.IsChange (putKind dest p m) := by
  unfold putKind
  split
  · exact records_makeDirAt p
  · exact records_putFile _ _
  · exact records_bind (records_linkText _) fun t => records_replacing (records_change _)
  · refine records_bind (records_linkText _) fun t => ?_
    exact records_bind (records_mustBeInside _ _) fun _ => records_mapError _ (records_change _)
  · exact records_pure _

theorem records_putMember (dest : Path) (m : Member) :
    Records Event.IsChange (putMember dest m) := by
  unfold putMember
  split
  · exact records_pure _
  · refine records_bind (records_ensureParents _ _) fun _ => ?_
    exact records_bind (records_mustBeInside _ _) fun _ => records_putKind

/-- The unpacking of an archive only changes files. -/
theorem records_unpack (a : Archive) (dest : Path) : Records Event.IsChange (unpack a dest) := by
  have put : ∀ dest (ms : List Member), Records Event.IsChange (ms.forM (putMember dest)) :=
    fun dest ms => records_forM (records_putMember dest) ms
  have rest : ∀ dest, Records Event.IsChange (do
      (a.members.filter (!isLate ·)).forM (putMember dest)
      if !a.intact then throw .damaged
      ((a.members.filter isLate).mergeSort fun a b => b.path ≤ a.path).forM (putMember dest) :
        Unpacking Unit) := by
    intro dest
    refine records_bind (put dest _) fun _ => ?_
    simp only
    split
    · exact records_bind (records_throw _) fun _ => put dest _
    · exact put dest _
  unfold unpack
  refine records_bind (records_look _) fun there => ?_
  simp only
  split
  · exact records_bind (records_mapError _ (records_ensureDir dest)) fun _ =>
      records_bind (records_look _) rest
  · exact records_bind (records_look _) rest

end Unpack

namespace Source

variable {s : Source} {deps archive dest : Path} {o : Outside} {w₀ w : World}

theorem records_extract (archive dest : Path) : Records Event.IsChange (extract archive dest) := by
  refine records_bind (records_mapError _ (records_ask _)) fun x => ?_
  split
  · intro o w
    exact records_mapError _ (Unpack.records_unpack _ dest) o w
  · exact records_mapError _ (Unpack.records_unpack _ dest)

theorem records_clearRemnants (s : Source) (deps : Path) :
    Records Event.IsChange (s.clearRemnants deps) :=
  records_mapError _ <| records_bind (records_removeFileIfThere _) fun _ =>
    records_bind (records_removeTreeIfThere _) fun _ => records_removeTreeIfThere _

theorem records_unpack (s : Source) (deps archive : Path) :
    Records Event.IsChange (s.unpack deps archive) :=
  records_bind (records_extract _ _) fun _ => records_mapError _ <|
    records_bind (records_change _) fun _ => records_bind (records_removeFileIfThere _) fun _ =>
      records_writeFile _ _

/-- Once a source has been unpacked, its marker is in sight. -/
theorem unpack_marks {w' : World} (run : (s.unpack deps archive).run o w = (.ok (), w')) :
    s.isExtracted deps w'.volume w'.cwd = true := by
  obtain ⟨_, w₁, _, run⟩ := run_bind_ok.1 run
  obtain ⟨_, w₂, _, run⟩ := run_bind_ok.1 (run_mapError_ok.1 run)
  obtain ⟨_, w₃, _, run⟩ := run_bind_ok.1 run
  exact writeFile_seen run

/-- The events of an acquisition: changes, and a request while the source does not count as
extracted, neither at the start nor by then. -/
def Asks (s : Source) (deps : Path) (w : World) (past : List Event) : Event → Prop
  | .changed _ => True
  | .requested _ => s.isExtracted deps w.volume w.cwd = false ∧
      s.isExtracted deps (leaves w.volume past) w.cwd = false ∧ ∀ e ∈ past, e.IsChange
  | .started .. => False

/-- The state of an acquisition before its request. -/
structure Unasked (w₀ : World) (past : List Event) (w : World) : Prop where
  recorded : Recorded past w₀ w
  changes : ∀ e ∈ past, e.IsChange

theorem Unasked.after {es past : List Event} {w' : World} (h : Unasked w₀ past w)
    (recorded : Recorded es w w') (changes : ∀ e ∈ es, e.IsChange) : Unasked w₀ (es ++ past) w' :=
  ⟨h.recorded.trans recorded, List.forall_mem_append.2 ⟨changes, h.changes⟩⟩

theorem asks_change {e : Event} (h : e.IsChange) (past : List Event) : s.Asks deps w past e := by
  cases e with
  | changed u => trivial
  | requested rs => exact h.elim
  | started c b r => exact h.elim

/-- The request is made when everything of an earlier source has been cleared away. -/
theorem passes_fetch (unseen : s.isExtracted deps w₀.volume w₀.cwd = false) :
    Passes (s.Asks deps w₀) (fun past w => Unasked w₀ past w ∧ Shut w.volume w.cwd (s.srcDir deps))
      (fetch s.url) (fun past w => Recorded past w₀ w) o := by
  rintro past w ⟨start, shut⟩
  have after : Recorded [.requested (o.exchange s.url).requests] w ((fetch s.url).run o w).2 := by
    rw [run_fetch]
    exact ⟨rfl, rfl, rfl⟩
  refine ⟨_, after, gates_singleton ⟨unseen, ?_, start.changes⟩, fun _ _ => start.recorded.trans after⟩
  have hidden := not_extracted_of_shut shut
  rwa [start.recorded.leaves, start.recorded.cwd] at hidden

/-- An acquisition makes its request only while no marker is in sight and before anything else than
changes; it starts no program, and if it succeeds, the marker is in sight. -/
theorem acquire_asks (s : Source) (deps : Path) (o : Outside) (w : World) :
    ∃ es, Recorded es w ((s.acquire deps).run o w).2 ∧ Gates (s.Asks deps w) [] es ∧
      ∀ x, ((s.acquire deps).run o w).1 = .ok x →
        s.isExtracted deps ((s.acquire deps).run o w).2.volume w.cwd = true := by
  by_cases seen : s.isExtracted deps w.volume w.cwd = true
  · rw [run_acquire_cached seen]
    exact ⟨[], .refl w, gates_nil _ _, fun _ _ => seen⟩
  have unseen : s.isExtracted deps w.volume w.cwd = false := by simpa using seen
  have ensured : Passes (s.Asks deps w) (Unasked w) (io (ensureDir deps)) (Unasked w) o :=
    passes_of_records (records_mapError _ (records_ensureDir deps)) (fun _ _ _ _ _ _ h => asks_change h _)
      fun _ _ _ _ start recorded changes _ => start.after recorded changes
  have cleared : Passes (s.Asks deps w) (Unasked w) (s.clearRemnants deps)
      (fun past w' => Unasked w past w' ∧ Shut w'.volume w'.cwd (s.srcDir deps)) o := by
    refine passes_of_records (records_clearRemnants s deps) (fun _ _ _ _ _ _ h => asks_change h _) ?_
    intro past w₁ es x start recorded changes ended
    exact ⟨start.after recorded changes, clearRemnants_shuts (Prod.ext ended rfl)⟩
  have written : ∀ b, Passes (s.Asks deps w) (fun past w' => Recorded past w w')
      (io (writeFile (s.archivePath deps) b)) (fun past w' => Recorded past w w') o := fun b =>
    passes_of_records (records_mapError _ (records_writeFile _ b)) (fun _ _ _ _ _ _ h => asks_change h _)
      fun _ _ _ _ start recorded _ _ => start.trans recorded
  have loaded : Passes (s.Asks deps w)
      (fun past w' => Unasked w past w' ∧ Shut w'.volume w'.cwd (s.srcDir deps))
      (download s.url (s.archivePath deps) s.sha256) (fun past w' => Recorded past w w') o := by
    refine (passes_fetch unseen).bind fun b => Passes.bind (passes_still fun w₁ => ?_) fun _ => written b
    rw [run_verify]
  have unpacked : Passes (s.Asks deps w) (fun past w' => Recorded past w w')
      (s.unpack deps (s.archivePath deps))
      (fun past w' => Recorded past w w' ∧ s.isExtracted deps w'.volume w'.cwd = true) o := by
    refine passes_of_records (records_unpack s deps _) (fun _ _ _ _ _ _ h => asks_change h _) ?_
    intro past w₁ es x start recorded _ ended
    exact ⟨start.trans recorded, unpack_marks (Prod.ext ended rfl)⟩
  have whole := (ensured.bind fun _ => cleared.bind fun _ => loaded).bind fun _ =>
    unpacked.bind fun _ => passes_still (a := pure Acquired.downloaded) fun _ => rfl
  obtain ⟨es, recorded, gates, ends⟩ := whole [] w ⟨.refl w, by simp⟩
  rw [run_acquire unseen]
  refine ⟨es, recorded, gates, fun x hx => ?_⟩
  have marked := (ends x hx).2
  rwa [recorded.cwd] at marked

end Source
end PinnedDeps
