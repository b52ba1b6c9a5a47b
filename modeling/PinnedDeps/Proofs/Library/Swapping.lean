import PinnedDeps.Proofs.Library.Copying
import PinnedDeps.Proofs.Source.Confinement

/-!
Copying into a directory that a path leads to. Whether it succeeds or not, at most the entry of one
name changes, and no directory takes its place or loses it.
-/
namespace PinnedDeps

open Bytes (ofText)
open PinnedDeps.Action Volume

namespace Volume

variable {v u : Volume} {l : Location}

/-- Only the entry at a place may have changed, from one that is no directory to another one. -/
def Swap (l : Location) (v u : Volume) : Prop :=
  Only (· = l) v u ∧ (u.lookup l = v.lookup l ∨ v.lookup l ≠ some .dir ∧ u.lookup l ≠ some .dir)

theorem Swap.refl (l : Location) (v : Volume) : Swap l v v := ⟨.refl _ v, .inl rfl⟩

theorem Swap.trans (v u x : Volume) (h : Swap l v u) (g : Swap l u x) : Swap l v x := by
  refine ⟨h.1.trans _ _ _ g.1, ?_⟩
  rcases h.2 with same | ⟨hv, hu⟩
  · rw [← same]
    exact g.2
  · rcases g.2 with same | ⟨-, hx⟩
    · exact .inr ⟨hv, same ▸ hu⟩
    · exact .inr ⟨hv, hx⟩

theorem swap_of_lookup {y : Option Entry} (hv : v.lookup l ≠ some .dir) (hy : y ≠ some .dir)
    (look : ∀ j, u.lookup j = if j = l then y else v.lookup j) : Swap l v u :=
  ⟨fun j hj => (look j).trans (if_neg hj), .inr ⟨hv, by rw [look, if_pos rfl]; exact hy⟩⟩

/-- Of two entries at a place that are no directories, the one comes for the other. -/
theorem swap_of_lookups {b : Volume} {x y : Option Entry} (hx : x ≠ some .dir) (hy : y ≠ some .dir)
    (look : ∀ j, v.lookup j = if j = l then x else b.lookup j)
    (look' : ∀ j, u.lookup j = if j = l then y else b.lookup j) : Swap l v u := by
  refine swap_of_lookup (by rw [look, if_pos rfl]; exact hx) hy fun j => (look' j).trans ?_
  split
  · rfl
  · rw [look, if_neg ‹_›]

/-- What stands in a directory may be swapped. -/
theorem Swap.upright {n : Bytes} {d : Location} (h : Swap (n :: d) v u) (upright : Upright v)
    (parent : v.lookup d = some .dir) : Upright u := by
  have dirs : ∀ j, v.lookup j = some .dir → u.lookup j = some .dir := by
    intro j hj
    by_cases here : j = n :: d
    · subst here
      rcases h.2 with same | ⟨hv, -⟩
      · rw [same, hj]
      · exact absurd hj hv
    · rw [h.1 j here, hj]
  intro m e hm
  by_cases here : m :: e = n :: d
  · cases here
    exact dirs _ parent
  · rw [h.1 _ here] at hm
    exact dirs _ (upright m e hm)

end Volume

variable {o : Outside} {w w₁ w' : World} {src p : Path} {n : String} {top : Location}

section Single

variable (hn : IsName (ofText n)) (led : Led w.volume w.cwd p top)
include hn led

theorem swap_removeFileIfThere :
    Moved (Swap (ofText n :: top)) w ((removeFileIfThere (p / n)).run o w).2 := by
  rw [run_removeFileIfThere]
  cases hv : w.volume.removeFile w.cwd (p / n) with
  | error e => exact .refl (Swap.refl _) w
  | ok v =>
    obtain ⟨d, m, x, hL, -, there, notDir, rfl⟩ := removeFile_ok hv
    rw [led.landing hn hL] at there ⊢
    refine .set (swap_of_lookup (y := none) ?_ (by simp) fun j => ?_)
    · rw [there]
      exact fun e => notDir (Option.some.inj e)
    · by_cases root : j = []
      · subst root
        rfl
      · exact lookup_erase _ _ root

variable (cleared : (removeFileIfThere (p / n)).run o w = (.ok (), w₁))
include cleared

theorem swap_makeLink (t : Bytes) : Moved (Swap (ofText n :: top)) w₁
    ((change fun v cwd => v.makeLink cwd t (p / n)).run o w₁).2 := by
  have thins := moves_removeFileIfThere (p / n) o w rfl
  rw [cleared] at thins
  have led₁ : Led w₁.volume w₁.cwd p top := thins.cwd ▸ led.thins thins.now
  rw [run_change]
  cases hv : w₁.volume.makeLink w₁.cwd t (p / n) with
  | error e => exact .refl (Swap.refl _) w₁
  | ok v =>
    obtain ⟨d, m, hL, -, free, rfl⟩ := makeLink_ok hv
    rw [led₁.landing hn hL] at free ⊢
    exact .set (swap_of_lookup (by simp [free]) (by simp) (lookup_put_if _ (by simp) _))

theorem swap_copyFile : Moved (Swap (ofText n :: top)) w₁ ((copyFile src (p / n)).run o w₁).2 := by
  have thins := moves_removeFileIfThere (p / n) o w rfl
  rw [cleared] at thins
  have led₁ : Led w₁.volume w₁.cwd p top := thins.cwd ▸ led.thins thins.now
  have vacant := removeFileIfThere_vacates cleared
  rw [run_copyFile]
  simp only
  split
  · exact .refl (Swap.refl _) w₁
  · rename_i f _
    rw [run_permitted]
    simp only
    rw [run_bind, run_changeAt]
    cases hv : w₁.volume.openFile w₁.cwd (p / n) f.mode false with
    | error e => exact .refl (Swap.refl _) w₁
    | ok y =>
      obtain ⟨l, v⟩ := y
      obtain ⟨d, m, rfl, -, hL, opened⟩ := openFile_ok hv
      obtain ⟨hc, hl, e, he⟩ := reach_div_opens hn hL
      obtain rfl := led₁ e he
      have free := vacant.lookup hn hc hl he
      rw [reach_div hn hc hl he (by simp [free])] at hL
      cases hL
      rcases opened with ⟨-, rfl⟩ | ⟨g, there, -⟩
      · have put := lookup_put_if w₁.volume (List.cons_ne_nil (ofText n) d) (.file ⟨[], f.mode, none⟩)
        have moded := lookup_adjust_new ({ · with mode := f.mode }) put rfl
        have written := lookup_written w₁.volume f.mode (List.cons_ne_nil (ofText n) d) f.bytes
        have file : ∀ g : File, some (Entry.file g) ≠ some .dir := by simp
        show Moved _ w₁ (((w₁.set _).set _).set _)
        refine (Moved.set ?_).trans Swap.trans ((Moved.set ?_).trans Swap.trans (.set ?_))
        · exact swap_of_lookup (by simp [free]) (file _) put
        · exact swap_of_lookups (file _) (file _) put moded
        · exact swap_of_lookups (file _) (file _) moded written
      · rw [free] at there
        cases there
  · exact .refl (Swap.refl _) w₁

omit cleared in
/-- The copying of an entry swaps at most the entry in its place. -/
theorem swap_copyArtifact :
    Moved (Swap (ofText n :: top)) w ((copyArtifact src (p / n)).run o w).2 := by
  have clearing := swap_removeFileIfThere (o := o) hn led
  refine moved_mapError _ ?_
  unfold replaceEntry
  rw [run_permitted]
  refine Moved.bind Swap.trans (moves_ask (Swap.refl _) _ o w rfl) fun x w₂ asked => ?_
  rw [run_ask] at asked
  obtain ⟨-, rfl⟩ := Prod.mk.inj asked
  split
  · refine clearing.bind Swap.trans fun _ w₃ cleared => ?_
    rw [run_permitted]
    exact swap_makeLink hn led cleared _
  · exact clearing.bind Swap.trans fun _ w₃ cleared => swap_copyFile hn led cleared

end Single

end PinnedDeps
