import PinnedDeps.Artifacts
import PinnedDeps.Proofs.Action.Removal
import PinnedDeps.Proofs.Action.Writing

/-!
Copying entries into a directory. A copy that succeeds has put a file or a link in the place of one
name; the directory is reached as before, and everything else stands as it stood.
-/
namespace PinnedDeps

open PinnedDeps.Action Volume

variable {o : Outside} {w w' w₁ : World} {src p : Path} {n : String} {names : List String}
  {M l : Location}

/-- Of the two worlds, the second has other entries under some names of a directory. -/
structure Installed (p : Path) (names : List String) (M : Location) (w w' : World) : Prop where
  cwd : w'.cwd = w.cwd
  before : Opens w.volume w.cwd p M
  after : Opens w'.volume w'.cwd p M
  valid : ∀ n ∈ names, checkPath (p / n) = .ok () ∧ (Bytes.ofText n).length ≤ nameLimit
  here : ∀ n ∈ names, ∃ e, w'.volume.lookup (Bytes.ofText n :: M) = some e ∧ e ≠ .dir
  elsewhere : ∀ l, (∀ n ∈ names, l ≠ Bytes.ofText n :: M) →
    w'.volume.lookup l = w.volume.lookup l

/-- What a copy of an entry is: a file with the same bytes and permission bits that shares them with no
other name, or a link with the same text. -/
def Entry.copied : Entry → Entry
  | .file f => .file ⟨f.bytes, f.mode, none⟩
  | x => x

/-- A file that was just made is written without a change to any other entry. -/
theorem lookup_written (v : Volume) (mode : Nat) (hl : l ≠ []) (b : Bytes) :
    let v₁ := v.put l (.file ⟨[], mode, none⟩)
    ∀ j, ((v₁.setMode l mode).append l b).lookup j =
      if j = l then some (.file ⟨b, mode, none⟩) else v.lookup j := by
  intro v₁
  have made := lookup_put_if v hl (.file ⟨[], mode, none⟩)
  have moded := lookup_adjust_new ({ · with mode }) made rfl
  exact lookup_adjust_new (fun g => { g with bytes := g.bytes ++ b }) moded rfl

section Single

variable (hn : IsName (Bytes.ofText n))
include hn

/-- A name is free once it has been cleared, and nothing else has changed. -/
theorem cleared_name (h : (removeFileIfThere (p / n)).run o w = (.ok (), w₁))
    (hM : Opens w₁.volume w₁.cwd p M) (hc : checkPath (p / n) = .ok ())
    (hl : (Bytes.ofText n).length ≤ nameLimit) :
    w₁.cwd = w.cwd ∧ Opens w.volume w.cwd p M ∧
      w₁.volume.lookup (Bytes.ofText n :: M) = none ∧
      ∀ l, l ≠ Bytes.ofText n :: M → w₁.volume.lookup l = w.volume.lookup l := by
  have vacant := removeFileIfThere_vacates h
  have thins := moves_removeFileIfThere (p / n) o w rfl
  rw [h] at thins
  have before := hM.keep thins.now.poorer.keeps
  rw [thins.cwd] at before
  refine ⟨thins.cwd, before, vacant.lookup hn hc hl hM, fun l hne => ?_⟩
  rw [run_removeFileIfThere] at h
  cases hv : w.volume.removeFile w.cwd (p / n) with
  | ok v =>
    rw [hv] at h
    cases h
    obtain ⟨d, m, x, hL, _, _, _, rfl⟩ := removeFile_ok hv
    obtain ⟨_, _, e, he, hLe⟩ := (reachName_div hn).1 hL
    cases hLe
    obtain rfl : M = d := before.unique he
    exact lookup_erase_ne _ hne
  | error e =>
    rw [hv] at h
    rw [show w = w₁ from congrArg Prod.snd h]

/-- A new entry under a free name changes nothing else and leaves the directory in reach. -/
theorem installed_of_put {e : Entry} (h : (removeFileIfThere (p / n)).run o w = (.ok (), w₁))
    (hM : Opens w₁.volume w₁.cwd p M) (hc : checkPath (p / n) = .ok ())
    (hl : (Bytes.ofText n).length ≤ nameLimit) (hcwd : w'.cwd = w₁.cwd) (he : e ≠ .dir)
    (hput : ∀ l, w'.volume.lookup l =
      if l = Bytes.ofText n :: M then some e else w₁.volume.lookup l) :
    Installed p [n] M w w' := by
  obtain ⟨hcwd₁, hM', hfree, hother⟩ := cleared_name hn h hM hc hl
  have keeps : Keeps w₁.volume w'.volume := by
    intro l x hx _
    rw [hput, if_neg, hx]
    rintro rfl
    rw [hfree] at hx
    cases hx
  refine ⟨hcwd.trans hcwd₁, hM', hcwd ▸ hM.keep keeps, ?_, ?_, fun l hl => ?_⟩
  · simpa using ⟨hc, hl⟩
  · simpa using ⟨e, by rw [hput, if_pos rfl], he⟩
  · have : l ≠ Bytes.ofText n :: M := by simpa using hl
    rw [hput, if_neg this, hother l this]

theorem makeLink_installs {t : Bytes} (h : (removeFileIfThere (p / n)).run o w = (.ok (), w₁))
    (run : (change fun v cwd => v.makeLink cwd t (p / n)).run o w₁ = (.ok (), w')) :
    ∃ M, Installed p [n] M w w' ∧ w'.volume.lookup (Bytes.ofText n :: M) = some (.link t) := by
  rw [run_change] at run
  cases hv : w₁.volume.makeLink w₁.cwd t (p / n) with
  | error e => rw [hv] at run; cases run
  | ok v =>
    rw [hv] at run
    cases run
    obtain ⟨d, m, hL, _, hfree, rfl⟩ := makeLink_ok hv
    obtain ⟨hc, hl, M, hM, hLM⟩ := (reachName_div hn).1 hL
    cases hLM
    have put := lookup_put_if w₁.volume (List.cons_ne_nil (Bytes.ofText n) d) (.link t)
    exact ⟨d, installed_of_put hn h hM hc hl rfl (Entry.noConfusion : Entry.link t ≠ .dir) put,
      (put _).trans (if_pos rfl)⟩

/-- A file that has been copied was still there once the name had been cleared. -/
theorem copyFile_installs (h : (removeFileIfThere (p / n)).run o w = (.ok (), w₁))
    (run : (copyFile src (p / n)).run o w₁ = (.ok (), w')) :
    ∃ M k f, Installed p [n] M w w' ∧
      w'.volume.lookup (Bytes.ofText n :: M) = some (Entry.file f).copied ∧
      w.volume.stat w.cwd src = .ok (k, .file f) ∧ k ≠ Bytes.ofText n :: M := by
  obtain ⟨k, f, l, v, seen, opened, rfl⟩ := copyFile_ok run
  obtain ⟨d, m, rfl, _, hL, hcase⟩ := openFile_ok opened
  obtain ⟨hc, hl, M, hM⟩ := reach_div_opens hn hL
  have hfree := (cleared_name hn h hM hc hl).2.2.1
  rw [reach_div hn hc hl hM (by simp [hfree])] at hL
  cases hL
  have thins := moves_removeFileIfThere (p / n) o w rfl
  rw [h] at thins
  have before : w.volume.stat w.cwd src = .ok (k, .file f) := by
    rw [thins.cwd] at seen
    exact thins.now.stat seen
  have other : k ≠ Bytes.ofText n :: d := by
    rintro rfl
    obtain ⟨L, -, hk, there⟩ := stat_ok.1 seen
    rw [hfree] at there
    cases there
  rcases hcase with ⟨_, rfl⟩ | ⟨g, hg, _⟩
  · have put := lookup_written w₁.volume f.mode (List.cons_ne_nil (Bytes.ofText n) d) f.bytes
    exact ⟨d, k, f, installed_of_put hn h hM hc hl rfl (Entry.noConfusion : Entry.file _ ≠ .dir) put,
      (put _).trans (if_pos rfl), before, other⟩
  · rw [hfree] at hg
    cases hg

/-- A copy that has been made is that of the entry at the path, which is no directory and, if it is a
file, does not stand in the place of the copy. -/
theorem copyArtifact_copies (run : (copyArtifact src (p / n)).run o w = (.ok (), w')) :
    ∃ M k x, Installed p [n] M w w' ∧ w.volume.entryAt w.cwd src = .ok (k, x) ∧
      w'.volume.lookup (Bytes.ofText n :: M) = some x.copied ∧
      ∀ f, x = .file f → k ≠ Bytes.ofText n :: M := by
  unfold copyArtifact replaceEntry at run
  obtain ⟨y, w₁, hy, run⟩ := run_bind_ok.1 (run_permitted_ok.1 (run_mapError_ok.1 run)).2
  rw [run_ask] at hy
  obtain ⟨seen, rfl⟩ := Prod.mk.inj hy
  split at run
  · rename_i k t
    obtain ⟨_, w₂, cleared, run⟩ := run_bind_ok.1 run
    obtain ⟨M, installed, there⟩ := makeLink_installs hn cleared (run_permitted_ok.1 run).2
    exact ⟨M, k, .link t, installed, seen, there, nofun⟩
  · rename_i notLink
    obtain ⟨k, x⟩ := y
    obtain ⟨_, w₂, cleared, run⟩ := run_bind_ok.1 run
    obtain ⟨M, k', f, installed, there, read, other⟩ := copyFile_installs hn cleared run
    have same := stat_of_entryAt seen fun t e => notLink k t (by rw [e])
    cases same.symm.trans read
    exact ⟨M, k, .file f, installed, seen, there, fun _ _ => other⟩

theorem copyArtifact_installs (run : (copyArtifact src (p / n)).run o w = (.ok (), w')) :
    ∃ M, Installed p [n] M w w' := by
  obtain ⟨M, _, _, installed, -⟩ := copyArtifact_copies hn run
  exact ⟨M, installed⟩

end Single

theorem Installed.trans {ms : List String} {M' : Location} (h : Installed p names M w w₁)
    (g : Installed p ms M' w₁ w') : Installed p (names ++ ms) M w w' := by
  obtain rfl : M = M' := h.after.unique g.before
  refine ⟨g.cwd.trans h.cwd, h.before, g.after, ?_, ?_, ?_⟩
  · intro n hn
    rcases List.mem_append.1 hn with hn | hn
    · exact h.valid n hn
    · exact g.valid n hn
  · intro n hn
    by_cases hm : n ∈ ms
    · exact g.here n hm
    · obtain ⟨e, he, hd⟩ := h.here n ((List.mem_append.1 hn).resolve_right hm)
      refine ⟨e, ?_, hd⟩
      rw [g.elsewhere, he]
      intro m hm' hmn
      have : n = m := Bytes.ofText_inj.1 (List.cons.inj hmn).1
      exact hm (this ▸ hm')
  · intro l hl
    rw [g.elsewhere l fun n hn => hl n (by simp [hn]), h.elsewhere l fun n hn => hl n (by simp [hn])]

/-- What has been installed is found under its path. -/
theorem Installed.entryAt (h : Installed p names M w w') (hn : IsName (Bytes.ofText n))
    (hmem : n ∈ names) : ∃ e, w'.volume.entryAt w'.cwd (p / n) = .ok (Bytes.ofText n :: M, e) ∧
      e ≠ .dir := by
  obtain ⟨hc, hl⟩ := h.valid n hmem
  obtain ⟨e, he, hd⟩ := h.here n hmem
  exact ⟨e, (entryAt_div hn).2 ⟨hc, hl, M, h.after, rfl, he⟩, hd⟩

/-- Copies that all succeed put a file or a link under each of the names. -/
theorem copyArtifacts_install (hnames : ∀ n ∈ names, IsName (Bytes.ofText n)) (hne : names ≠ [])
    (run : (copyArtifacts src p names).run o w = (.ok (), w')) :
    ∃ M, Installed p names M w w' := by
  unfold copyArtifacts at run
  induction names generalizing w with
  | nil => exact absurd rfl hne
  | cons n ns ih =>
    rw [forM_cons] at run
    obtain ⟨_, w₁, first, run⟩ := run_bind_ok.1 run
    obtain ⟨M, hM⟩ := copyArtifact_installs (hnames n (by simp)) first
    by_cases hns : ns = []
    · subst hns
      cases run
      exact ⟨M, hM⟩
    · obtain ⟨M', hM'⟩ := ih (fun m hm => hnames m (by simp [hm])) hns run
      exact ⟨M, hM.trans hM'⟩

/-- The copying of an entry that fails has at most taken one away. -/
theorem copyArtifact_failed {dst : Path} {e : BuildError}
    (h : (copyArtifact src dst).run o w = (.error e, w')) :
    Thins w.volume w'.volume ∧ ∃ cause, e = .copy src dst cause := by
  unfold copyArtifact replaceEntry at h
  obtain ⟨cause, rfl, failed⟩ := run_mapError_error.1 h
  clear h
  refine ⟨?_, cause, rfl⟩
  have clearing : ∀ {r w₁}, (removeFileIfThere dst).run o w = (r, w₁) →
      Thins w.volume w₁.volume := by
    intro r w₁ run
    have := (moves_removeFileIfThere dst o w rfl).now
    rwa [run] at this
  rw [run_permitted] at failed
  simp only at failed
  rcases run_bind_error.1 failed with h | ⟨x, w₁, hx, h⟩
  · rw [run_ask] at h
    obtain ⟨_, rfl⟩ := Prod.mk.inj h
    exact .refl _
  rw [run_ask] at hx
  obtain ⟨_, rfl⟩ := Prod.mk.inj hx
  split at h
  · rcases run_bind_error.1 h with h | ⟨_, w₂, cleared, h⟩
    · exact clearing h
    · rw [run_permitted, run_change] at h
      simp only at h
      split at h
      · cases h
      · obtain ⟨_, rfl⟩ := Prod.mk.inj h
        exact clearing cleared
  · rcases run_bind_error.1 h with h | ⟨_, w₂, cleared, h⟩
    · exact clearing h
    · rw [copyFile_failed h]
      exact clearing cleared

theorem copyArtifact_spares (hn : IsName (Bytes.ofText n)) (hl : l.head? ≠ some (Bytes.ofText n)) :
    Spares l w.volume ((copyArtifact src (p / n)).run o w).2.volume := by
  rcases h : (copyArtifact src (p / n)).run o w with ⟨e | x, w'⟩
  · exact (copyArtifact_failed h).1.spares l
  · obtain ⟨M, hM⟩ := copyArtifact_installs hn h
    intro free
    have : l ≠ Bytes.ofText n :: M := by
      rintro rfl
      exact hl rfl
    exact (hM.elsewhere l (by simpa using this)).trans free

theorem copyArtifacts_spare (hnames : ∀ n ∈ names, IsName (Bytes.ofText n))
    (hl : ∀ n ∈ names, l.head? ≠ some (Bytes.ofText n)) :
    Spares l w.volume ((copyArtifacts src p names).run o w).2.volume := by
  unfold copyArtifacts
  induction names generalizing w with
  | nil => exact .refl l _
  | cons n ns ih =>
    have first : Spares l w.volume ((copyArtifact (src / n) (p / n)).run o w).2.volume :=
      copyArtifact_spares (hnames n (by simp)) (hl n (by simp))
    rw [forM_cons, run_bind]
    rcases run : (copyArtifact (src / n) (p / n)).run o w with ⟨e | x, w₁⟩
    · rwa [run] at first
    · rw [run] at first
      exact first.trans _ _ _ (ih (fun m hm => hnames m (by simp [hm])) fun m hm => hl m (by simp [hm]))

/-- Copies that do not all succeed stop at one of the names. -/
theorem copyArtifacts_failed {e : BuildError} (hnames : ∀ n ∈ names, IsName (Bytes.ofText n))
    (h : (copyArtifacts src p names).run o w = (.error e, w')) :
    ∃ done n rest cause, names = done ++ n :: rest ∧ e = .copy (src / n) (p / n) cause ∧
      ∀ l, (∀ m ∈ done, l.head? ≠ some (Bytes.ofText m)) → Spares l w.volume w'.volume := by
  unfold copyArtifacts at h
  induction names generalizing w with
  | nil => cases h
  | cons n ns ih =>
    rw [forM_cons] at h
    rcases run_bind_error.1 h with h | ⟨_, w₁, first, h⟩
    · obtain ⟨thins, cause, rfl⟩ := copyArtifact_failed h
      exact ⟨[], n, ns, cause, rfl, rfl, fun l _ => thins.spares l⟩
    · obtain ⟨done, m, rest, cause, rfl, rfl, spares⟩ := ih (fun m hm => hnames m (by simp [hm])) h
      refine ⟨n :: done, m, rest, cause, rfl, rfl, fun l hl => ?_⟩
      have first_spares : Spares l w.volume ((copyArtifact (src / n) (p / n)).run o w).2.volume :=
        copyArtifact_spares (hnames n (by simp)) (hl n (by simp))
      rw [first] at first_spares
      exact first_spares.trans _ _ _ (spares l fun m hm => hl m (by simp [hm]))

end PinnedDeps
