import PinnedDeps.Proofs.Action.Run
import PinnedDeps.Proofs.Volume.Outcome

/-!
Writing files. A file that is written opens no new way, and on a machine without limits nothing can go
wrong any more once it has been opened.
-/
namespace PinnedDeps.Action

open Volume

variable {o : Machine} {w w' : World} {p : Path} {b : Bytes}

/-- The volumes on the way have no directory and no link that was not there before. -/
def OpensNothing (v v' : Volume) : Prop := Keeps v' v

theorem OpensNothing.refl (v : Volume) : OpensNothing v v := Keeps.refl v

theorem OpensNothing.trans (u v x : Volume) (h : OpensNothing u v) (g : OpensNothing v x) :
    OpensNothing u x := Keeps.trans g h

theorem openFile_opensNothing {v v' : Volume} {cwd l : Location} {mode : Nat} {keep : Bool}
    (h : v.openFile cwd p mode keep = .ok (l, v')) : OpensNothing v v' := by
  obtain ⟨d, n, rfl, _, _, ⟨_, rfl⟩ | ⟨f, _, rfl⟩⟩ := openFile_ok h
  · exact keeps_of_put_file
  · cases keep
    · exact keeps_of_adjust _ _
    · exact OpensNothing.refl v

/-- Bytes are written behind those of a file, and of a writing that fails only the first of them. -/
theorem run_writeBytes (l : Location) (b : Bytes) : (writeBytes l b).run o w =
    match o.cutsShort l b w.toView with
    | none => (.ok (), w.set (w.volume.append l b))
    | some (n, e) => (.error (.system e), w.set (w.volume.append l (b.take n))) := by
  show (match o.cutsShort l b w.toView with
    | none => _
    | some (n, e) => _ : Action IoError Unit).run o w = _
  cases o.cutsShort l b w.toView <;> rfl

theorem moves_writeBytes {R : Volume → Volume → Prop} {cwd l : Location}
    (h : ∀ v b, R v (v.append l b)) (b : Bytes) : Moves cwd R (writeBytes l b) := by
  rintro o w rfl
  rw [run_writeBytes]
  cases o.cutsShort l b w.toView with
  | none => exact .set (h _ _)
  | some x => exact .set (h _ _)

theorem run_writeFile {o : Outside} (p : Path) (b : Bytes) : (writeFile p b).run o w =
    match w.volume.openFile w.cwd p plainMode false with
    | .ok (l, v) => (.ok (), (w.set v).set (v.append l b))
    | .error e => (.error e, w) := by
  unfold writeFile
  rw [run_permitted]
  simp only
  rw [run_bind, run_changeAt]
  cases w.volume.openFile w.cwd p plainMode false <;> rfl

/-- A writing that has ended well had its file opened, and got all of its bytes into it. -/
theorem writeFile_ok (run : (writeFile p b).run o w = (.ok (), w')) :
    ∃ l v, w.volume.openFile w.cwd p plainMode false = .ok (l, v) ∧
      w' = (w.set v).set (v.append l b) := by
  unfold writeFile at run
  obtain ⟨l, w₁, opened, written⟩ := run_bind_ok.1 (run_permitted_ok.1 run).2
  rw [run_changeAt] at opened
  cases hv : w.volume.openFile w.cwd p plainMode false with
  | error e =>
    rw [hv] at opened
    cases opened
  | ok y =>
    obtain ⟨l', v⟩ := y
    rw [hv] at opened
    cases opened
    rw [run_writeBytes] at written
    cases cut : o.cutsShort l b (w.set v).toView with
    | none =>
      rw [cut] at written
      cases written
      exact ⟨l, v, rfl, rfl⟩
    | some x =>
      rw [cut] at written
      cases written

theorem moves_openFile {cwd : Location} (p : Path) (mode : Nat) (keep : Bool) :
    Moves cwd OpensNothing (changeAt fun v cwd => v.openFile cwd p mode keep) := by
  rintro o w rfl
  rw [run_changeAt]
  cases h : w.volume.openFile w.cwd p mode keep with
  | error e => exact .refl OpensNothing.refl w
  | ok x => exact .set (openFile_opensNothing h)

theorem moves_writeFile {cwd : Location} (p : Path) (b : Bytes) :
    Moves cwd OpensNothing (writeFile p b) := by
  refine moves_permitted OpensNothing.refl OpensNothing.trans _ ?_
  exact moves_bind OpensNothing.trans (moves_openFile p plainMode false) fun l =>
    moves_writeBytes (fun _ _ => keeps_of_adjust _ _) b

/-- What a copy does once its file has been opened. -/
def fillCopy (dst : Path) (f : File) (l : Location) : Action IoError Unit := do
  permit (.setMode dst)
  commit (← look fun v _ => v.setMode l f.mode)
  writeBytes l f.bytes

/-- The copying of a file up to the opening of its copy. -/
theorem run_copyFile (src dst : Path) : (copyFile src dst).run o w =
    match o.refuses (.read src) w.toView with
    | some e => (.error (.system e), w)
    | none =>
      match w.volume.stat w.cwd src with
      | .error e => (.error e, w)
      | .ok (_, .file f) => (do
          permit (.write dst)
          let l ← changeAt fun v cwd => v.openFile cwd dst f.mode false
          fillCopy dst f l : Action IoError Unit).run o w
      | .ok _ => (.error .notRegularFile, w) := by
  unfold copyFile
  rw [run_permitted]
  cases o.refuses (.read src) w.toView with
  | some e => rfl
  | none =>
    simp only
    rw [run_bind, run_ask]
    cases w.volume.stat w.cwd src with
    | error e => rfl
    | ok y =>
      obtain ⟨k, x⟩ := y
      cases x <;> rfl

theorem run_fillCopy (dst : Path) (f : File) (l : Location) : (fillCopy dst f l).run o w =
    match o.refuses (.setMode dst) w.toView with
    | some e => (.error (.system e), w)
    | none => (writeBytes l f.bytes).run o (w.set (w.volume.setMode l f.mode)) :=
  run_permitted _ _

/-- A copy that has ended well has read a file, opened another and got all of the bytes into it. -/
theorem copyFile_ok {src dst : Path} (run : (copyFile src dst).run o w = (.ok (), w')) :
    ∃ k f l v, w.volume.stat w.cwd src = .ok (k, .file f) ∧
      w.volume.openFile w.cwd dst f.mode false = .ok (l, v) ∧
      w' = ((w.set v).set (v.setMode l f.mode)).set ((v.setMode l f.mode).append l f.bytes) := by
  rw [run_copyFile] at run
  cases read : o.refuses (.read src) w.toView with
  | some e =>
    rw [read] at run
    cases run
  | none =>
    rw [read] at run
    simp only at run
    split at run
    · cases run
    · rename_i k f seen
      obtain ⟨l, w₁, opened, filled⟩ := run_bind_ok.1 (run_permitted_ok.1 run).2
      rw [run_changeAt] at opened
      split at opened
      · rename_i l' v hv
        cases opened
        rw [run_fillCopy] at filled
        split at filled
        · cases filled
        rw [run_writeBytes] at filled
        split at filled
        · cases filled
          exact ⟨k, f, l, v, seen, hv, rfl⟩
        · cases filled
      · cases opened
    · cases run

/-- On a machine without limits a file is copied, or nothing is changed. -/
theorem copyFile_failed {o : Outside} {src dst : Path} {e : IoError}
    (run : (copyFile src dst).run o w = (.error e, w')) : w' = w := by
  rw [run_copyFile] at run
  simp only at run
  split at run
  · exact (congrArg Prod.snd run).symm
  · rename_i k f seen
    rw [run_permitted, run_bind, run_changeAt] at run
    simp only at run
    cases opened : w.volume.openFile w.cwd dst f.mode false with
    | error x =>
      rw [opened] at run
      exact (congrArg Prod.snd run).symm
    | ok y =>
      rw [opened] at run
      cases run
  · exact (congrArg Prod.snd run).symm

/-- What is seen through a path stays in sight as the file that is there later. -/
theorem stat_of_reach {v u : Volume} {cwd : Location} {L : Landing} {f : File}
    (h : v.reach cwd p true = .ok L) (k : Keeps v u) (there : u.lookup L.location = some (.file f)) :
    u.stat cwd p = .ok (L.location, .file f) := by
  obtain ⟨usable, walked⟩ := reach_ok.1 h
  exact stat_ok.2 ⟨L, reach_ok.2 ⟨usable, walked.keep k fun _ t => by simp [there]⟩, rfl, there⟩

/-- A file that has been written is seen through its path, with the bytes that were written. -/
theorem writeFile_stat (run : (writeFile p b).run o w = (.ok (), w')) :
    ∃ l f, w'.volume.stat w'.cwd p = .ok (l, .file f) ∧ f.bytes = b := by
  obtain ⟨l, v, opened, rfl⟩ := writeFile_ok run
  obtain ⟨d, n, rfl, _, hL, made⟩ := openFile_ok opened
  have first : Keeps w.volume v ∧ ∃ f, v.lookup (n :: d) = some (.file f) ∧ f.bytes = [] := by
    rcases made with ⟨hn, rfl⟩ | ⟨f, hf, rfl⟩
    · exact ⟨keeps_put _ hn, _, (lookup_put _ _ _ (by simp)).trans (if_pos rfl), rfl⟩
    · exact ⟨keeps_adjust _ _ _, _, lookup_adjust_self _ hf, rfl⟩
  obtain ⟨keeps, f, hf, emptied⟩ := first
  have written : (v.append (n :: d) b).lookup (n :: d) =
      some (.file { f with bytes := f.bytes ++ b }) := lookup_adjust_self _ hf
  refine ⟨n :: d, { f with bytes := f.bytes ++ b },
    stat_of_reach (L := .name d n) hL (keeps.trans (keeps_adjust v _ _)) written, ?_⟩
  show f.bytes ++ b = b
  rw [emptied, List.nil_append]

theorem writeFile_seen (run : (writeFile p b).run o w = (.ok (), w')) :
    (w'.volume.stat w'.cwd p).isOk = true := by
  obtain ⟨l, f, seen, -⟩ := writeFile_stat run
  rw [seen]
  rfl

theorem writeFile_reads (run : (writeFile p b).run o w = (.ok (), w')) :
    w'.volume.readFile w'.cwd p = .ok b := by
  obtain ⟨l, f, seen, rfl⟩ := writeFile_stat run
  unfold readFile
  rw [seen]
  rfl

/-- A file stands at a location, and everything else is as before. -/
def Filed (l : Location) (v v' : Volume) : Prop :=
  ∃ f, ∀ j, v'.lookup j = if j = l then some (.file f) else v.lookup j

theorem Filed.trans {l : Location} (u v x : Volume) (h : Filed l u v) (g : Filed l v x) :
    Filed l u x := by
  obtain ⟨_, hf⟩ := h
  obtain ⟨f, hg⟩ := g
  refine ⟨f, fun j => ?_⟩
  rw [hg j]
  split
  · rfl
  · rename_i hj
    rw [hf j, if_neg hj]

/-- A new file at a name in a directory gets its bytes, and nothing else changes. -/
theorem run_writeFile_new {o : Outside} {n : String} {e : Location} (hn : IsName (Bytes.ofText n))
    (hc : checkPath (p / n) = .ok ()) (hl : (Bytes.ofText n).length ≤ nameLimit)
    (h : Opens w.volume w.cwd p e) (hx : w.volume.lookup (Bytes.ofText n :: e) = none) :
    ∃ w', (writeFile (p / n) b).run o w = (.ok (), w') ∧
      Moved (Filed (Bytes.ofText n :: e)) w w' ∧
      ∀ j, w'.volume.lookup j = if j = Bytes.ofText n :: e then
        some (.file ⟨b, plainMode, none⟩) else w.volume.lookup j := by
  have made := lookup_put_if w.volume (List.cons_ne_nil (Bytes.ofText n) e)
    (.file ⟨[], plainMode, none⟩)
  have written : ∀ j, ((w.volume.put (Bytes.ofText n :: e) (.file ⟨[], plainMode, none⟩)).append
      (Bytes.ofText n :: e) b).lookup j = if j = Bytes.ofText n :: e then
        some (.file ⟨b, plainMode, none⟩) else w.volume.lookup j :=
    lookup_adjust_new (fun f => { f with bytes := f.bytes ++ b }) made rfl
  rw [run_writeFile, openFile_new hn hc hl h plainMode false hx]
  refine ⟨_, rfl, (Moved.set ⟨_, made⟩).trans Filed.trans (.set ⟨⟨b, plainMode, none⟩, fun j => ?_⟩),
    written⟩
  rw [World.set_volume, written j, made j]
  split <;> rfl

end PinnedDeps.Action
