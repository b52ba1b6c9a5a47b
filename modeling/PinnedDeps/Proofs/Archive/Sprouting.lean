import PinnedDeps.Proofs.Action.Straight
import PinnedDeps.Proofs.Archive.Confined

/-!
Archives of directories and files below one name. While no link stands below that name, each member is put
under just its own names. So every directory that is new there is one that a member needs, and once the
archive has been unpacked, each of these is there.
-/
namespace PinnedDeps

open PinnedDeps.Action Volume

/-- The member is a directory or a file of that name or below it, or nothing is made for it. -/
inductive Member.Grown (n : Bytes) (m : Member) : Prop
  | passed (nameless : m.names? = none)
  | note {x : Bytes} (kind : m.kind = .note) (names : m.names? = some [x])
  | dir {late : Bool} {ns : List Bytes} (kind : m.kind = .dir late) (names : m.names? = some (n :: ns))
  | file {body : Body} {ns : List Bytes} (kind : m.kind = .file body) (names : m.names? = some (n :: ns))

/-- The member needs a directory of these names: it is that directory, or lies below it. -/
inductive Member.Needs (m : Member) (ns : List Bytes) : Prop
  | dir {late : Bool} {rest : List Bytes} (kind : m.kind = .dir late) (names : m.names? = some (ns ++ rest))
  | file {body : Body} {rest : List Bytes} (kind : m.kind = .file body) (names : m.names? = some (ns ++ rest))
      (below : rest ≠ [])

theorem Member.Needs.split {m : Member} {ns : List Bytes} (h : m.Needs ns) :
    ∃ rest, m.names? = some (ns ++ rest) := by
  cases h with
  | dir _ names => exact ⟨_, names⟩
  | file _ names _ => exact ⟨_, names⟩

theorem Member.Needs.split_file {m : Member} {ns : List Bytes} {body : Body} (h : m.Needs ns)
    (kind : m.kind = .file body) : ∃ rest, m.names? = some (ns ++ rest) ∧ rest ≠ [] := by
  cases h with
  | dir other _ =>
    rw [kind] at other
    cases other
  | file _ names below => exact ⟨_, names, below⟩

/-- Where the directories that a member needs stand. -/
def Member.Takes (m : Member) (top l : Location) : Prop := ∃ ns, m.Needs ns ∧ l = ns.reverse ++ top

def Archive.Takes (a : Archive) (top l : Location) : Prop := ∃ m ∈ a.members, m.Takes top l

namespace Volume

variable {v u x : Volume} {cwd top k d l : Location} {m n : Bytes} {P Q : Location → Prop} {e : Entry}

theorem Proper.place_path (h : Proper k) (cwd : Location) : (Location.path k).place cwd = k := by
  have names : ∀ s ∈ k.reverse, s ≠ [Bytes.dot] := fun s hs => (h s (List.mem_reverse.1 hs)).notDot
  unfold Path.place Path.steps
  rw [startOf_path, h.segments_path, List.filter_eq_self.2 fun s hs => by simpa using names s hs,
    List.reverse_reverse, List.append_nil]

theorem Proper.descends_path (h : Proper k) : (Location.path k).Descends := by
  unfold Path.Descends Path.steps
  rw [h.segments_path]
  intro up
  exact (h _ (List.mem_reverse.1 (List.mem_filter.1 up).1)).notUp rfl

/-- Without links, the path of a location leads to no other place. -/
theorem Upright.reached (h : Upright v) (proper : Proper k) (linkless : Linkless k v)
    (hL : reachName v cwd (Location.path k) = .ok (.name d m)) :
    k = m :: d ∧ v.lookup d = some .dir := by
  have same := reachName_place hL proper.descends_path
    (by rw [proper.place_path]; exact linkless.above (below_tail k))
  rw [proper.place_path] at same
  subst same
  obtain ⟨e, opens, hLe⟩ := reachName_path proper hL
  cases hLe
  exact ⟨rfl, h.opens_path opens⟩

/-- The destination is there, and no link has the name in it or stands below that name. -/
structure Bare (top : Location) (n : Bytes) (v : Volume) : Prop extends Ground top v where
  noLink : ∀ l t, Below l (n :: top) → v.lookup l ≠ some (.link t)

theorem Bare.linkless (h : Bare top n v) (hk : k = top ∨ Below k (n :: top)) : Linkless k v := by
  have above : ∀ l t, Below top l → v.lookup l ≠ some (.link t) := by
    intro l t hl link
    rw [h.upright.above h.there hl] at link
    cases link
  rcases hk with rfl | hk
  · exact above
  intro l t hl link
  rcases hk.total hl with hb | hb
  · rcases below_cons_iff.1 hb with rfl | hb
    · exact h.noLink _ t (below_refl _) link
    · exact above l t hb link
  · exact h.noLink l t hb link

/-- Where the path to a place below the name leads, when its last name is left away. -/
theorem Bare.opened (h : Bare top n v) (proper : Proper (m :: k)) (hb : Below (m :: k) (n :: top))
    (opens : Opens v cwd (Location.path k) d) : d = k := by
  have above : Proper k := proper.tail
  have linkless : Linkless k v := (h.linkless (.inr hb)).above (below_cons m k)
  have place := opens.place above.descends_path (by rw [above.place_path]; exact linkless)
  rwa [above.place_path] at place

/-- From one volume to another, directories have been made at some places below the name, and files have come
and gone below it. -/
structure Sprouted (top : Location) (n : Bytes) (P : Location → Prop) (v u : Volume) : Prop where
  bare : Bare top n u
  only : Only (fun l => Below l (n :: top)) v u
  dirs : Dirs v u
  new : ∀ l, u.lookup l = some .dir → v.lookup l = some .dir ∨ P l

def Sprouts (top : Location) (n : Bytes) (P : Location → Prop) (v u : Volume) : Prop :=
  Bare top n v → Sprouted top n P v u

theorem Sprouts.refl (v : Volume) : Sprouts top n P v v :=
  fun h => ⟨h, .refl _ v, fun _ hl => hl, fun _ hl => .inl hl⟩

theorem Sprouts.trans (v u x : Volume) (h : Sprouts top n P v u) (g : Sprouts top n P u x) :
    Sprouts top n P v x := by
  intro bare
  have first := h bare
  have second := g first.bare
  refine ⟨second.bare, first.only.trans _ _ _ second.only, fun l hl => second.dirs l (first.dirs l hl),
    fun l hl => ?_⟩
  rcases second.new l hl with hl | hl
  · exact first.new l hl
  · exact .inr hl

theorem Sprouts.mono (h : Sprouts top n P v u) (g : ∀ l, P l → Q l) : Sprouts top n Q v u :=
  fun bare => { h bare with new := fun l hl => ((h bare).new l hl).imp_right (g l) }

section Steps

variable (bare : Bare top n v) (hb : Below (m :: d) (n :: top))
include bare hb

theorem sprouted_put (dir : v.lookup d = some .dir) (vacant : v.lookup (m :: d) = none)
    (notLink : ∀ t, e ≠ .link t) (taken : e = .dir → P (m :: d)) :
    Sprouted top n P v (v.put (m :: d) e) := by
  have worked : Worked top v d m (v.put (m :: d) e) := .put e vacant
  refine ⟨⟨bare.dirs (bare.upright.worked worked dir) worked.dirs, fun l t hl link => ?_⟩,
    fun l hl => lookup_put_ne v e ?_, worked.dirs, fun l hl => ?_⟩
  · rw [lookup_put_if v (List.cons_ne_nil m d)] at link
    split at link
    · exact notLink t (Option.some.inj link)
    · exact bare.noLink l t hl link
  · rintro rfl
    exact hl hb
  · rw [lookup_put_if v (List.cons_ne_nil m d)] at hl
    split at hl
    · rename_i here
      exact .inr (here ▸ taken (Option.some.inj hl))
    · exact .inl hl

theorem sprouted_erase (there : v.lookup (m :: d) = some e) (notDir : e ≠ .dir) :
    Sprouted top n P v (v.erase (m :: d)) := by
  have worked : Worked top v d m (v.erase (m :: d)) := .erased there notDir
  have dir : v.lookup d = some .dir := bare.upright m d (by rw [there]; rfl)
  have thins := thins_erase v (m :: d)
  refine ⟨⟨bare.dirs (bare.upright.worked worked dir) worked.dirs, fun l t hl link =>
      bare.noLink l t hl (thins _ _ link)⟩, fun l hl => lookup_erase_ne v ?_, worked.dirs,
    fun l hl => .inl (thins _ _ hl)⟩
  rintro rfl
  exact hl hb

theorem sprouted_adjust {f : File} (change : File → File) (there : v.lookup (m :: d) = some (.file f))
    (alone : f.peers = none) : Sprouted top n P v (v.adjust (m :: d) change) := by
  have look := fun l => lookup_adjust_alone (j := l) change there alone
  refine ⟨⟨bare.dirs (bare.upright.adjust _ change) (dirs_adjust v _ change), fun l t hl link => ?_⟩,
    fun l hl => (look l).trans (if_neg ?_), dirs_adjust v _ change, fun l hl => ?_⟩
  · rw [look] at link
    split at link
    · cases link
    · exact bare.noLink l t hl link
  · rintro rfl
    exact hl hb
  · rw [look] at hl
    split at hl
    · cases hl
    · exact .inl hl

end Steps

end Volume

namespace Unpack

variable {o : Machine} {w w' : World} {cwd top k l : Location} {m n : Bytes} {P : Location → Prop}
  {dest p : Path}

section Put

variable (proper : Proper (m :: k)) (hb : Below (m :: k) (n :: top))
include proper hb

theorem sprouts_makeDir (taken : P (m :: k)) : Moves cwd (Sprouts top n P)
    (change fun v cwd => v.makeDir cwd (Location.path (m :: k))) := by
  refine moves_change Sprouts.refl fun v u hu bare => ?_
  obtain ⟨d, x, hL, vacant, rfl⟩ := makeDir_ok hu
  obtain ⟨same, dir⟩ := bare.upright.reached proper (bare.linkless (.inr hb)) hL
  cases same
  exact sprouted_put bare hb dir vacant nofun fun _ => taken

theorem sprouts_remove : Moves cwd (Sprouts top n P) (removeFileIfThere (Location.path (m :: k))) := by
  refine moves_removal Sprouts.refl Sprouts.trans (moves_change Sprouts.refl fun v u hu bare => ?_)
  obtain ⟨d, x, e, hL, -, there, notDir, rfl⟩ := removeFile_ok hu
  obtain ⟨same, -⟩ := bare.upright.reached proper (bare.linkless (.inr hb)) hL
  cases same
  exact sprouted_erase bare hb there notDir

theorem sprouts_openNew (mode : Nat) : Moves cwd (Sprouts top n P)
    (changeAt fun v cwd => v.openNew cwd (Location.path (m :: k)) mode) := by
  rintro o w rfl
  rw [run_changeAt]
  cases opened : w.volume.openNew w.cwd (Location.path (m :: k)) mode with
  | error e => exact .refl Sprouts.refl w
  | ok x =>
    obtain ⟨l, u⟩ := x
    obtain ⟨d, y, rfl, hL, vacant, rfl⟩ := openNew_ok opened
    refine .set fun bare => ?_
    obtain ⟨same, dir⟩ := bare.upright.reached proper (bare.linkless (.inr hb)) hL
    cases same
    exact sprouted_put bare hb dir vacant nofun nofun

theorem sprouts_replacing {α : Type} {a : Action IoError α} (h : Moves cwd (Sprouts top n P) a) :
    Moves cwd (Sprouts top n P) (replacing (Location.path (m :: k)) a) := by
  refine moves_mapError _ (moves_tryCatch Sprouts.trans h fun e => ?_)
  split
  · exact moves_bind Sprouts.trans (sprouts_remove proper hb) fun _ => h
  · exact moves_throw Sprouts.refl e

theorem sprouts_putFile (body : Body) (mode : Option Nat) :
    Moves cwd (Sprouts top n P) (putFile (Location.path (m :: k)) body mode) := by
  rintro o w rfl
  have opening : Moved (Sprouts top n P) w _ :=
    sprouts_replacing proper hb (sprouts_openNew proper hb plainMode) o w rfl
  refine opening.bind Sprouts.trans fun l w₁ opened => ?_
  obtain ⟨d, rfl, opens, new⟩ := replacingOpenNew_ok proper opened
  have here : ∀ {v : Volume}, Opens v w₁.cwd (Location.path k) d → Bare top n v → d = k :=
    fun opens bare => bare.opened proper hb opens
  let written := w₁.set (w₁.volume.append (m :: d) body.bytes)
  have filed : written.volume.lookup (m :: d) = some (.file ⟨body.bytes, plainMode, none⟩) :=
    (lookup_adjust_alone _ new rfl).trans (if_pos rfl)
  have first : Moved (Sprouts top n P) w₁ written := .set fun bare => by
    obtain rfl := here opens bare
    exact sprouted_adjust bare hb _ new rfl
  refine first.trans Sprouts.trans ?_
  by_cases cut : body.cut = true
  · simp only [cut, if_true]
    exact .refl Sprouts.refl _
  · simp only [cut]
    cases mode with
    | none => exact .refl Sprouts.refl _
    | some mode =>
      refine .set fun bare => ?_
      obtain rfl := here (opens.keep (keeps_adjust _ _ _)) bare
      exact sprouted_adjust bare hb _ filed rfl

theorem sprouts_makeDirAt (taken : P (m :: k)) :
    Moves cwd (Sprouts top n P) (makeDirAt (Location.path (m :: k))) := by
  refine moves_tryCatch Sprouts.trans (moves_mapError _ (sprouts_makeDir proper hb taken)) fun e => ?_
  refine moves_bind Sprouts.trans (moves_look Sprouts.refl _) fun x => ?_
  split
  · exact moves_pure Sprouts.refl _
  · exact moves_throw Sprouts.refl _

theorem makeDirAt_ok (bare : Bare top n w.volume)
    (run : (makeDirAt (Location.path (m :: k))).run o w = (.ok (), w')) :
    w'.volume.lookup (m :: k) = some .dir := by
  unfold makeDirAt at run
  cases made : w.volume.makeDir w.cwd (Location.path (m :: k)) with
  | ok v =>
    rw [run_tryCatch, run_refusable, run_change, made] at run
    cases run
    obtain ⟨d, x, hL, -, rfl⟩ := makeDir_ok made
    obtain ⟨same, -⟩ := bare.upright.reached proper (bare.linkless (.inr hb)) hL
    cases same
    exact (lookup_put_if _ (List.cons_ne_nil m k) _ _).trans (if_pos rfl)
  | error e =>
    have refused : (refusable (change fun v cwd => v.makeDir cwd (Location.path (m :: k)))).run o w =
        (.error (.refused e), w) := run_mapError_error.2 ⟨e, rfl, by rw [run_change, made]⟩
    rw [run_tryCatch, refused] at run
    simp only at run
    rw [run_bind, run_look] at run
    simp only at run
    split at run
    · rename_i l _ seen
      cases run
      obtain ⟨L, hL, rfl, there⟩ := entryAt_ok.1 seen
      rw [reach_eq_reachName proper.endsInSlash_path] at hL
      obtain ⟨d, -, rfl⟩ := reachName_path proper hL
      obtain ⟨same, -⟩ := bare.upright.reached proper (bare.linkless (.inr hb)) hL
      cases same
      exact there
    · cases run

theorem putFile_ok {body : Body} {mode : Option Nat} (bare : Bare top n w.volume)
    (run : (putFile (Location.path (m :: k)) body mode).run o w = (.ok (), w')) :
    (w'.volume.lookup (m :: k)).isSome := by
  obtain ⟨l, w₁, opened, rest⟩ := run_bind_ok.1 run
  have opening : Moved (Sprouts top n fun _ => True) w w₁ :=
    (sprouts_replacing proper hb (sprouts_openNew proper hb plainMode) o w rfl).ended opened
  obtain ⟨d, rfl, opens, new⟩ := replacingOpenNew_ok proper opened
  obtain rfl := (opening.now bare).bare.opened proper hb opens
  have written : (w₁.volume.append (m :: d) body.bytes).lookup (m :: d) = _ := lookup_adjust_self _ new
  by_cases cut : body.cut = true
  · simp only [cut, if_true] at rest
    cases rest
  · simp only [cut] at rest
    cases mode with
    | none =>
      cases rest
      exact Option.isSome_of_eq_some written
    | some mode =>
      cases rest
      exact Option.isSome_of_eq_some (lookup_adjust_self _ written)

end Put

theorem sprouts_mustBeInside (dest p : Path) : Moves cwd (Sprouts top n P) (mustBeInside dest p) := by
  intro o w _
  rw [run_mustBeInside_world]
  exact .refl Sprouts.refl w

/-- Above a place, no directories are made but those below the name. -/
theorem sprouts_ensureDir {i j : Location} (proper : Proper j) (hj : j = top ∨ Below j (n :: top))
    (hi : Below j i) (taken : ∀ l, Below j l → Below l (n :: top) → P l) :
    Moves cwd (Sprouts top n P) (Action.ensureDir (Location.path i)) := by
  refine moves_ensureDir_of Sprouts.refl Sprouts.trans fun q hq v u hv bare => ?_
  obtain ⟨l, hl, rfl⟩ := (proper.below hi).mem_ancestors_path hq
  have hl := hi.trans hl
  obtain ⟨d, x, hL, vacant, rfl⟩ := makeDir_ok hv
  obtain ⟨rfl, dir⟩ := bare.upright.reached (proper.below hl) ((bare.linkless hj).above hl) hL
  have old : ¬ Below top (x :: d) := fun above => by
    rw [bare.upright.above bare.there above] at vacant
    cases vacant
  have below : Below (x :: d) (n :: top) := by
    rcases hj with rfl | hj
    · exact absurd hl old
    rcases hj.total hl with hb | hb
    · rcases below_cons_iff.1 hb with same | hb
      · exact same ▸ below_refl _
      · exact absurd hb old
    · exact hb
  exact sprouted_put bare below dir vacant nofun fun _ => taken _ hl below

theorem sprouts_ensureParents {j : Location} (proper : Proper j) (hj : j = top ∨ Below j (n :: top))
    (taken : ∀ i, Below j i → Below i (n :: top) → P i) :
    Moves cwd (Sprouts top n P) (ensureParents dest (Location.path j)) := by
  refine moves_bind_of (Q := fun qs => ∀ q ∈ qs, q ∈ (Location.path j).ancestors) Sprouts.trans
    (moves_missingAbove Sprouts.refl Sprouts.trans _ _) ?_ fun found hfound => ?_
  · intro o w qs w' run q hq
    simpa using (missingAbove_ok run).2 q hq
  refine moves_forM Sprouts.refl Sprouts.trans fun q hq => ?_
  obtain ⟨i, hi, rfl⟩ := proper.mem_ancestors_path (hfound q hq)
  refine moves_bind Sprouts.trans ?_ fun _ => moves_mapError _ ?_
  · cases (Location.path i).parent? with
    | none => exact moves_pure Sprouts.refl _
    | some above => exact sprouts_mustBeInside dest above
  · exact sprouts_ensureDir proper hj hi taken

/-- The run makes directories below the name at some places only, and if it ends well, they are all there. -/
def Raises (cwd top : Location) (n : Bytes) (P : Location → Prop) (a : Unpacking Unit) : Prop :=
  ∀ o w, w.cwd = cwd → Moved (Sprouts top n P) w (a.run o w).2 ∧
    ∀ w', a.run o w = (.ok (), w') → Bare top n w.volume → ∀ l, P l → w'.volume.lookup l = some .dir

section Raises

variable {Q : Location → Prop} {a b : Unpacking Unit}

theorem Raises.congr (h : Raises cwd top n P a) (g : ∀ l, P l ↔ Q l) : Raises cwd top n Q a := by
  rwa [show Q = P from funext fun l => propext (g l).symm]

theorem raises_throw (e : UnpackError) : Raises cwd top n P (throw e) :=
  fun _ w _ => ⟨.refl Sprouts.refl w, fun _ h => by cases h⟩

theorem raises_pure (none : ∀ l, ¬ P l) : Raises cwd top n P (pure ()) :=
  fun _ w _ => ⟨.refl Sprouts.refl w, fun _ _ _ l hl => absurd hl (none l)⟩

theorem Raises.bind (h : Raises cwd top n P a) (g : Raises cwd top n Q b) :
    Raises cwd top n (fun l => P l ∨ Q l) (do a; b) := by
  intro o w hw
  have first : Moved (Sprouts top n fun l => P l ∨ Q l) w (a.run o w).2 :=
    (h o w hw).1.imp fun _ hv => hv.mono fun _ => .inl
  have second : ∀ w₁, a.run o w = (.ok (), w₁) →
      Moved (Sprouts top n fun l => P l ∨ Q l) w₁ (b.run o w₁).2 := fun w₁ run =>
    (g o w₁ ((first.ended run).cwd.trans hw)).1.imp fun _ hv => hv.mono fun _ => .inr
  refine ⟨first.bind Sprouts.trans fun _ w₁ run => second w₁ run, fun w' run bare l hl => ?_⟩
  obtain ⟨_, w₁, run₁, run₂⟩ := run_bind_ok.1 run
  have between := (first.ended run₁).now bare
  rcases hl with hl | hl
  · exact (((second w₁ run₁).ended run₂).now between.bare).dirs l ((h o w hw).2 w₁ run₁ bare l hl)
  · exact (g o w₁ ((first.ended run₁).cwd.trans hw)).2 w' run₂ between.bare l hl

theorem raises_forM {α : Type} {P : α → Location → Prop} {f : α → Unpacking Unit} {as : List α}
    (h : ∀ x ∈ as, Raises cwd top n (P x) (f x)) :
    Raises cwd top n (fun l => ∃ x ∈ as, P x l) (as.forM f) := by
  induction as with
  | nil => exact raises_pure fun l ⟨_, hx, _⟩ => by cases hx
  | cons x as ih =>
    rw [forM_cons]
    refine ((h x (by simp)).bind (ih fun y hy => h y (by simp [hy]))).congr fun l => ?_
    simp

end Raises

/-- The places between the destination and a member are those of its first names. -/
theorem names_of_below {init : List Bytes} {i : Location} (above : Below (init.reverse ++ top) i)
    (below : Below i (n :: top)) : ∃ ms rest, init = ms ++ rest ∧ i = ms.reverse ++ top := by
  obtain ⟨r, hr⟩ := below_iff.1 above
  obtain ⟨q, rfl⟩ := below_iff.1 (below.trans (below_cons n top))
  rw [← List.append_assoc] at hr
  have same := List.append_cancel_right hr
  refine ⟨q.reverse, r.reverse, ?_, by rw [List.reverse_reverse]⟩
  rw [← List.reverse_append, ← same, List.reverse_reverse]

theorem below_of_names (top : Location) {ns init : List Bytes} {x : Bytes} (last : n :: ns = init ++ [x]) :
    Below (x :: (init.reverse ++ top)) (n :: top) ∧
      (init.reverse ++ top = top ∨ Below (init.reverse ++ top) (n :: top)) := by
  cases init with
  | nil =>
    cases last
    exact ⟨below_refl _, .inl rfl⟩
  | cons m init =>
    cases last
    have deep : Below ((n :: init).reverse ++ top) (n :: top) := by
      rw [List.reverse_cons, List.append_assoc]
      exact below_append _ _
    exact ⟨(below_cons x _).trans deep, .inr deep⟩

/-- The first of the names lead to a place above that of all of them. -/
theorem below_of_split (top : Location) {init ms rest : List Bytes} {x : Bytes}
    (split : init ++ [x] = ms ++ rest) : Below (x :: (init.reverse ++ top)) (ms.reverse ++ top) := by
  have place : x :: (init.reverse ++ top) = rest.reverse ++ (ms.reverse ++ top) := by
    rw [← List.append_assoc, ← List.reverse_append, ← split, List.reverse_concat, List.cons_append]
  rw [place]
  exact below_append _ _

theorem below_of_split_file (top : Location) {init ms rest : List Bytes} {x : Bytes}
    (split : init ++ [x] = ms ++ rest) (below : rest ≠ []) :
    Below (init.reverse ++ top) (ms.reverse ++ top) := by
  rcases below_cons_iff.1 (below_of_split top split) with same | above
  · have size := congrArg List.length split
    have same := congrArg List.length same
    have := List.length_pos_iff.2 below
    simp at size same
    omega
  · exact above

section Member

variable {mem : Member} (usable : Usable top)
include usable

/-- The directories above a member, and then what the member itself is. -/
theorem raises_putNamed {ns init : List Bytes} {x : Bytes} (names : mem.names? = some (n :: ns))
    (last : n :: ns = init ++ [x])
    (above : ∀ ms rest, init = ms ++ rest → P (ms.reverse ++ top))
    (kind : Moves cwd (Sprouts top n P)
      (putKind (Location.path top) (Location.path (x :: (init.reverse ++ top))) mem))
    (placed : ∀ o w w', Bare top n w.volume → Upright w'.volume →
      (putKind (Location.path top) (Location.path (x :: (init.reverse ++ top))) mem).run o w = (.ok (), w') →
        ∀ l, P l → w'.volume.lookup l = some .dir) :
    Raises cwd top n P (putMember (Location.path top) mem) := by
  rw [last] at names
  have proper := proper_named usable names
  obtain ⟨-, hj⟩ := below_of_names top last
  rw [putMember_named names]
  have parents : Moves cwd (Sprouts top n P) (do
      ensureParents (Location.path top) (Location.path (init.reverse ++ top))
      mustBeInside (Location.path top) (Location.path (init.reverse ++ top))) := by
    refine moves_bind Sprouts.trans (sprouts_ensureParents proper.tail hj fun i hi below => ?_) fun _ =>
      sprouts_mustBeInside _ _
    obtain ⟨ms, rest, hms, rfl⟩ := names_of_below hi below
    exact above ms rest hms
  rw [← bind_assoc]
  intro o w hw
  have first := parents o w hw
  refine ⟨first.bind Sprouts.trans fun _ w₁ run => kind o w₁ ((first.ended run).cwd.trans hw),
    fun w' run bare => ?_⟩
  obtain ⟨_, w₁, run₁, run₂⟩ := run_bind_ok.1 run
  have between := (first.ended run₁).now bare
  have after := ((kind o w₁ ((first.ended run₁).cwd.trans hw)).ended run₂).now between.bare
  exact placed o w₁ w' between.bare after.bare.upright run₂

theorem raises_note {x : Bytes} (kind : mem.kind = .note) (names : mem.names? = some [x]) :
    Raises cwd top n (mem.Takes top) (putMember (Location.path top) mem) := by
  have nothing : ∀ l, ¬ mem.Takes top l := by
    rintro l ⟨ns, ⟨other, _⟩ | ⟨other, _, _⟩, -⟩
    · rw [kind] at other
      cases other
    · rw [kind] at other
      cases other
  have names : mem.names? = some ([] ++ [x]) := names
  have proper := proper_named usable names
  have still : putKind (Location.path top) (Location.path (x :: ([].reverse ++ top))) mem = pure () := by
    unfold putKind
    rw [kind]
  rw [putMember_named names, still]
  refine fun o w hw => ⟨?_, fun w' _ _ l hl => absurd hl (nothing l)⟩
  refine moves_bind Sprouts.trans (sprouts_ensureParents proper.tail (.inl rfl) fun i above below => ?_)
    (fun _ => moves_bind Sprouts.trans (sprouts_mustBeInside _ _) fun _ => moves_pure Sprouts.refl _) o w hw
  exact absurd (above.trans below) (not_below_cons n top)

theorem raises_dir {late : Bool} {ns : List Bytes} (kind : mem.kind = .dir late)
    (names : mem.names? = some (n :: ns)) :
    Raises cwd top n (mem.Takes top) (putMember (Location.path top) mem) := by
  obtain ⟨init, x, last⟩ := names_last names
  have proper := proper_named usable (last ▸ names)
  obtain ⟨hb, -⟩ := below_of_names top last
  have shape : putKind (Location.path top) (Location.path (x :: (init.reverse ++ top))) mem =
      makeDirAt (Location.path (x :: (init.reverse ++ top))) := by
    unfold putKind
    rw [kind]
  refine raises_putNamed usable names last (fun ms rest h => ?_) ?_ ?_
  · have parts : mem.names? = some (ms ++ (rest ++ [x])) := by rw [names, last, h, List.append_assoc]
    exact ⟨ms, .dir kind parts, rfl⟩
  · have whole : mem.names? = some ((n :: ns) ++ []) := by rw [names, List.append_nil]
    rw [shape]
    refine sprouts_makeDirAt proper hb ⟨n :: ns, .dir kind whole, ?_⟩
    rw [last]
    simp
  · rintro o w w' bare upright run _ ⟨ms, needs, rfl⟩
    rw [shape] at run
    refine upright.above (makeDirAt_ok proper hb bare run) ?_
    obtain ⟨rest, split⟩ := needs.split
    rw [names, last] at split
    exact below_of_split top (Option.some.inj split)

theorem raises_file {body : Body} {ns : List Bytes} (kind : mem.kind = .file body)
    (names : mem.names? = some (n :: ns)) :
    Raises cwd top n (mem.Takes top) (putMember (Location.path top) mem) := by
  obtain ⟨init, x, last⟩ := names_last names
  have proper := proper_named usable (last ▸ names)
  obtain ⟨hb, -⟩ := below_of_names top last
  have shape : putKind (Location.path top) (Location.path (x :: (init.reverse ++ top))) mem =
      putFile (Location.path (x :: (init.reverse ++ top))) body mem.mode := by
    unfold putKind
    rw [kind]
  refine raises_putNamed usable names last (fun ms rest h => ?_) ?_ ?_
  · have parts : mem.names? = some (ms ++ (rest ++ [x])) := by rw [names, last, h, List.append_assoc]
    exact ⟨ms, .file kind parts (by simp), rfl⟩
  · rw [shape]
    exact sprouts_putFile proper hb body mem.mode
  · rintro o w w' bare upright run _ ⟨ms, needs, rfl⟩
    rw [shape] at run
    -- A file stands in a directory, and the member needs none but those above it.
    refine upright.above (upright x _ (putFile_ok proper hb bare run)) ?_
    obtain ⟨rest, split, below⟩ := needs.split_file kind
    rw [names, last] at split
    exact below_of_split_file top (Option.some.inj split) below

theorem raises_putMember (grown : mem.Grown n) :
    Raises cwd top n (mem.Takes top) (putMember (Location.path top) mem) := by
  cases grown with
  | passed nameless =>
    rw [putMember_nameless nameless]
    refine raises_pure fun l ⟨ns, needs, _⟩ => ?_
    obtain ⟨rest, names⟩ := needs.split
    rw [nameless] at names
    cases names
  | note kind names => exact raises_note usable kind names
  | dir kind names => exact raises_dir usable kind names
  | file kind names => exact raises_file usable kind names

end Member

theorem raises_putAll (usable : Usable top) {a : Archive} (grown : ∀ m ∈ a.members, m.Grown n) :
    Raises cwd top n (a.Takes top) (putAll a (Location.path top)) := by
  have put : ∀ ms : List Member, (∀ m ∈ ms, m ∈ a.members) →
      Raises cwd top n (fun l => ∃ m ∈ ms, m.Takes top l) (ms.forM (putMember (Location.path top))) :=
    fun ms hms => raises_forM fun m hm => raises_putMember usable (grown m (hms m hm))
  have early := put (a.members.filter (!isLate ·)) fun m hm => (List.mem_filter.1 hm).1
  have late := put ((a.members.filter isLate).mergeSort fun a b => b.path ≤ a.path) fun m hm =>
    (List.mem_filter.1 (List.mem_mergeSort.1 hm)).1
  have intact : Raises cwd top n
      (fun l => ∃ m ∈ (a.members.filter isLate).mergeSort fun a b => b.path ≤ a.path, m.Takes top l) (do
      if !a.intact then throw .damaged
      ((a.members.filter isLate).mergeSort fun a b => b.path ≤ a.path).forM
        (putMember (Location.path top)) : Unpacking Unit) := by
    simp only
    split
    · exact ((raises_throw (P := fun _ => False) _).bind late).congr fun l => by simp only [false_or]
    · exact late
  refine (early.bind intact).congr fun l => ?_
  constructor
  · rintro (⟨m, hm, hl⟩ | ⟨m, hm, hl⟩)
    · exact ⟨m, (List.mem_filter.1 hm).1, hl⟩
    · exact ⟨m, (List.mem_filter.1 (List.mem_mergeSort.1 hm)).1, hl⟩
  · rintro ⟨m, hm, hl⟩
    cases hlate : isLate m with
    | false => exact .inl ⟨m, List.mem_filter.2 ⟨hm, by simp [hlate]⟩, hl⟩
    | true => exact .inr ⟨m, List.mem_mergeSort.2 (List.mem_filter.2 ⟨hm, hlate⟩), hl⟩

/-- An archive of directories and files below one name, unpacked into a directory. -/
theorem unpack_sprouts {a : Archive} (grown : ∀ m ∈ a.members, m.Grown n) (usable : Usable top)
    (checked : checkPath dest = .ok ()) (opens : Opens w.volume w.cwd dest top)
    (bare : Bare top n w.volume) :
    Moved (Sprouted top n (a.Takes top)) w ((unpack a dest).run o w).2 ∧
      ∀ w', (unpack a dest).run o w = (.ok (), w') → ∀ l, a.Takes top l → w'.volume.lookup l = some .dir := by
  rw [run_unpack_opens a checked opens bare.there]
  have raises : Raises w.cwd top n (a.Takes top) (putAll a (Location.path top)) := raises_putAll usable grown
  obtain ⟨moved, made⟩ := raises o w rfl
  exact ⟨moved.imp fun _ h => h bare, fun w' run => made w' run bare⟩

end Unpack
end PinnedDeps
