import PinnedDeps.Proofs.Action.Removal
import PinnedDeps.Proofs.Action.Writing
import PinnedDeps.Proofs.Source.Places

/-!
Acquisitions that fail, and the marker. Up to the unpacking no failure leaves the marker in sight,
unless the making of the directory has brought an old one into sight. From the unpacking on a
failure leaves it in sight in four ways, and in no other.
-/
namespace PinnedDeps.Source

open PinnedDeps.Action Volume

variable {o : Outside} {w w' : World} {s : Source} {deps archive : Path} {e : BuildError}

/-- Everything up to the archive being there: the directory, the clearing and the download. -/
def fetchArchive (s : Source) (deps : Path) : Action BuildError Unit := do
  io (ensureDir deps)
  s.clearRemnants deps
  download s.url (s.archivePath deps) s.sha256

theorem run_acquire_cached (h : s.isExtracted deps w.volume w.cwd = true) :
    (s.acquire deps).run o w = (.ok .cached, w) := by
  unfold acquire
  rw [run_bind, run_look]
  simp only [h, if_true]
  rfl

theorem run_acquire (h : s.isExtracted deps w.volume w.cwd = false) :
    (s.acquire deps).run o w =
      (do s.fetchArchive deps; s.unpack deps (s.archivePath deps); return Acquired.downloaded).run o w := by
  unfold acquire fetchArchive
  rw [run_bind, run_look]
  simp only [h, bind_assoc]
  rfl

/-- What is done once the directory has been made. -/
def fill (s : Source) (deps : Path) : Action BuildError Acquired := do
  s.clearRemnants deps
  download s.url (s.archivePath deps) s.sha256
  s.unpack deps (s.archivePath deps)
  return .downloaded

theorem run_acquire_made {w₁ : World} (unseen : s.isExtracted deps w.volume w.cwd = false)
    (made : (ensureDir deps).run o w = (.ok (), w₁)) :
    (s.acquire deps).run o w = (s.fill deps).run o w₁ := by
  have done : (io (ensureDir deps)).run o w = (.ok (), w₁) := run_mapError_ok.2 made
  rw [run_acquire unseen]
  unfold fetchArchive fill
  rw [bind_assoc, run_bind_of_ok done, bind_assoc]

theorem run_acquire_unmade {w₁ : World} {x : IoError}
    (unseen : s.isExtracted deps w.volume w.cwd = false)
    (failed : (ensureDir deps).run o w = (.error x, w₁)) :
    (s.acquire deps).run o w = (.error (.io x), w₁) := by
  have stopped : (io (ensureDir deps)).run o w = (.error (.io x), w₁) :=
    run_mapError_error.2 ⟨x, rfl, failed⟩
  rw [run_acquire unseen]
  unfold fetchArchive
  rw [bind_assoc, run_bind_of_error stopped]

theorem srcDir_endsInName (s : Source) (deps : Path) : (s.srcDir deps).EndsInName := by
  have hq : Bytes.ofText (s.stem ++ ".src") = Bytes.ofText s.stem ++ Bytes.ofText ".src" :=
    Bytes.ofText_append _ _
  have suffix : ∃ x, (s.srcDir deps).bytes = x ++ Bytes.ofText ".src" := by
    show ∃ x, (deps.join ⟨Bytes.ofText (s.stem ++ ".src")⟩).bytes = _
    unfold Path.join
    rw [hq]
    split
    · exact ⟨_, rfl⟩
    split
    · exact ⟨_, (List.append_assoc ..).symm⟩
    · exact ⟨deps.bytes ++ Bytes.slash :: Bytes.ofText s.stem, by simp⟩
  obtain ⟨x, hx⟩ := suffix
  exact Path.endsInName_append hx (by decide) (by decide)

/-- While the source directory cannot be entered, the source does not count as extracted. -/
theorem not_extracted_of_shut {v : Volume} {cwd : Location} (h : Shut v cwd (s.srcDir deps)) :
    s.isExtracted deps v cwd = false :=
  h.stat_div (srcDir_endsInName s deps) isName_marker

/-- What an answer comes to. -/
def fetched (url : String) : Except FetchCause Response → Except BuildError Bytes
  | .error cause => .error (.fetch url cause)
  | .ok r =>
    if 200 ≤ r.status ∧ r.status < 300 then
      match r.body with
      | some b => .ok b
      | none => .error (.fetch url .bodyCutShort)
    else .error (.fetch url (.status r.status r.reason))

theorem run_fetch {o : Machine} (url : String) : (fetch url).run o w =
    (fetched url (o.exchange url).answer,
      { w with trace := .requested (o.exchange url).requests :: w.trace }) := by
  unfold fetch fetched
  show (match (o.exchange url).answer with
    | .error cause => throw (.fetch url cause)
    | .ok r => _ : Action BuildError Bytes).run o _ = _
  cases (o.exchange url).answer with
  | error cause => rfl
  | ok r =>
    simp only
    split
    · cases r.body <;> rfl
    · rfl

theorem run_verify {o : Machine} (url : String) (body : Bytes) (sha256 : Option String) :
    (verify url body sha256).run o w =
      (match sha256 with
        | none => .ok ()
        | some expected => if o.digest body = expected then .ok ()
          else .error (.hashMismatch url expected (o.digest body)), w) := by
  cases sha256 with
  | none => rfl
  | some expected =>
    show (if o.digest body = expected then return () else throw _ : Action BuildError Unit).run o w = _
    simp only
    split <;> rfl

theorem moves_download {cwd : Location} (url : String) (dest : Path) (sha256 : Option String) :
    Moves cwd OpensNothing (download url dest sha256) := by
  refine moves_bind OpensNothing.trans ?_ fun body => ?_
  · intro o w _
    rw [run_fetch]
    exact ⟨rfl, .refl _, [_], rfl, by simp⟩
  · refine moves_bind OpensNothing.trans ?_ fun _ => moves_mapError _ (moves_writeFile dest body)
    intro o w _
    rw [run_verify]
    exact .refl OpensNothing.refl w

/-- Making the directory brings an old marker into sight, and the first steps do not get rid of
it. -/
inductive ExposesMarker (s : Source) (deps : Path) (o : Outside) (w : World) : Prop
  | making {e w₁} (failed : (ensureDir deps).run o w = (.error e, w₁))
      (seen : s.isExtracted deps w₁.volume w₁.cwd = true)
  | clearing {e w₁} (made : (ensureDir deps).run o w = (.ok (), w₁))
      (failed : (removeFileIfThere (s.archivePath deps)).run o w₁ = (.error e, w₁))
      (seen : s.isExtracted deps w₁.volume w₁.cwd = true)

/-- The four ways in which the unpacking of a source stops with the marker in sight. -/
inductive StopsMarked (s : Source) (deps archive : Path) (o : Outside) (w : World) : Prop
  | unpacking {e w₁} (failed : (extract archive deps).run o w = (.error e, w₁))
      (seen : s.isExtracted deps w₁.volume w₁.cwd = true)
  | moving {e w₁} (unpacked : (extract archive deps).run o w = (.ok (), w₁))
      (failed : w₁.volume.rename w₁.cwd (s.unpackedDir deps) (s.srcDir deps) = .error e)
      (seen : s.isExtracted deps w₁.volume w₁.cwd = true)
  | clearing {e v w₁} (unpacked : (extract archive deps).run o w = (.ok (), w₁))
      (moved : w₁.volume.rename w₁.cwd (s.unpackedDir deps) (s.srcDir deps) = .ok v)
      (failed : (removeFileIfThere archive).run o (w₁.set v) = (.error e, w₁.set v))
      (seen : s.isExtracted deps v w₁.cwd = true)
  | marking {v w₁ w₂} (unpacked : (extract archive deps).run o w = (.ok (), w₁))
      (moved : w₁.volume.rename w₁.cwd (s.unpackedDir deps) (s.srcDir deps) = .ok v)
      (cleared : (removeFileIfThere archive).run o (w₁.set v) = (.ok (), w₂))
      (failed : w₂.volume.openFile w₂.cwd (s.marker deps) plainMode false =
        .error SystemError.isDirectory)
      (seen : s.isExtracted deps w₂.volume w₂.cwd = true)

/-- A file that can be seen but not be written is a directory. -/
theorem openFile_refused {v : Volume} {cwd : Location} {p : Path} {x : IoError}
    (hp : p.endsInSlash = false) (hs : (v.stat cwd p).isOk = true)
    (h : v.openFile cwd p plainMode false = .error x) : x = SystemError.isDirectory := by
  cases hy : v.stat cwd p with
  | error _ => rw [hy] at hs; cases hs
  | ok y =>
    obtain ⟨l, e⟩ := y
    obtain ⟨L, hL, rfl, he⟩ := stat_ok.1 hy
    have hf : reachFile v cwd p = .ok L := by simp [reachFile, hp, hL]
    unfold openFile at h
    rw [hf] at h
    cases L with
    | place l => cases h; rfl
    | name d n =>
      simp only [bind, Except.bind, show v.lookup (n :: d) = some e from he] at h
      cases e with
      | dir => cases h; rfl
      | file f => cases h
      | link t =>
        exact absurd he ((reach_ok.1 hL).2.last_not_link rfl)

theorem unpack_stops_marked (run : (s.unpack deps archive).run o w = (.error e, w'))
    (h : s.isExtracted deps w'.volume w'.cwd = true) : StopsMarked s deps archive o w := by
  unfold unpack at run
  rcases run_bind_error.1 run with run | ⟨_, w₁, unpacked, run⟩
  · exact .unpacking run h
  obtain ⟨x, -, run⟩ := run_mapError_error.1 run
  rcases run_bind_error.1 run with run | ⟨_, w₂, moved, run⟩
  · rw [run_change] at run
    cases hv : w₁.volume.rename w₁.cwd (s.unpackedDir deps) (s.srcDir deps) with
    | ok v => rw [hv] at run; cases run
    | error y =>
      rw [hv] at run
      cases run
      exact .moving unpacked hv h
  rw [run_change] at moved
  cases hv : w₁.volume.rename w₁.cwd (s.unpackedDir deps) (s.srcDir deps) with
  | error y => rw [hv] at moved; cases moved
  | ok v =>
    rw [hv] at moved
    cases moved
    rcases run_bind_error.1 run with run | ⟨_, w₃, cleared, run⟩
    · obtain rfl := removeFileIfThere_failed run
      exact .clearing unpacked hv run h
    · rw [run_writeFile] at run
      cases hf : w₃.volume.openFile w₃.cwd (s.marker deps) plainMode false with
      | ok y => rw [hf] at run; cases run
      | error y =>
        rw [hf] at run
        cases run
        have hm : (s.marker deps).endsInSlash = false := Path.endsInSlash_div _ isName_marker
        obtain rfl := openFile_refused hm h hf
        exact .marking unpacked hv cleared hf h

theorem StopsMarked.run (h : StopsMarked s deps archive o w) :
    ∃ e w', (s.unpack deps archive).run o w = (.error e, w') ∧
      s.isExtracted deps w'.volume w'.cwd = true := by
  unfold unpack
  cases h with
  | unpacking failed seen => exact ⟨_, _, run_bind_of_error failed, seen⟩
  | @moving x _ unpacked failed seen =>
    refine ⟨.io x, _, ?_, seen⟩
    rw [run_bind_of_ok unpacked]
    refine run_mapError_error.2 ⟨x, rfl, ?_⟩
    rw [run_bind, run_change, failed]
  | @clearing x v w₁ unpacked moved failed seen =>
    refine ⟨.io x, w₁.set v, ?_, seen⟩
    rw [run_bind_of_ok unpacked]
    refine run_mapError_error.2 ⟨x, rfl, ?_⟩
    rw [run_bind, run_change, moved]
    exact run_bind_of_error failed
  | marking unpacked moved cleared failed seen =>
    refine ⟨.io SystemError.isDirectory, _, ?_, seen⟩
    rw [run_bind_of_ok unpacked]
    refine run_mapError_error.2 ⟨_, rfl, ?_⟩
    rw [run_bind, run_change, moved]
    simp only
    rw [run_bind_of_ok cleared, run_writeFile, failed]

theorem moves_clearRemnants {cwd : Location} (s : Source) (deps : Path) :
    Moves cwd Thins (s.clearRemnants deps) := by
  refine moves_mapError _ (moves_bind Thins.trans (moves_removeFileIfThere _) fun _ => ?_)
  exact moves_bind Thins.trans (moves_removeTreeIfThere _) fun _ => moves_removeTreeIfThere _

/-- The three names of the source in the directory. -/
def places (s : Source) (deps : Path) : List Path :=
  [s.archivePath deps, s.srcDir deps, s.unpackedDir deps]

/-- Nothing of the source is left, whatever its names are. -/
theorem clearRemnants_vacates (run : (s.clearRemnants deps).run o w = (.ok (), w')) :
    ∀ p ∈ s.places deps, Vacant w'.volume w'.cwd p := by
  obtain ⟨_, w₁, run₁, run⟩ := run_bind_ok.1 (run_mapError_ok.1 run)
  obtain ⟨_, w₂, run₂, run₃⟩ := run_bind_ok.1 run
  have thins₂ := moves_removeTreeIfThere (s.srcDir deps) o w₁ rfl
  have thins₃ := moves_removeTreeIfThere (s.unpackedDir deps) o w₂ rfl
  rw [run₂] at thins₂
  rw [run₃] at thins₃
  have archive : Vacant w₁.volume w₁.cwd (s.archivePath deps) := removeFileIfThere_vacates run₁
  have src : Vacant w₂.volume w₂.cwd (s.srcDir deps) := removeTreeIfThere_vacates run₂
  have unpacked : Vacant w'.volume w'.cwd (s.unpackedDir deps) := removeTreeIfThere_vacates run₃
  rw [thins₃.cwd] at unpacked ⊢
  rw [thins₂.cwd] at src unpacked ⊢
  intro p hp
  simp only [places, List.mem_cons, List.not_mem_nil, or_false] at hp
  rcases hp with rfl | rfl | rfl
  · exact (archive.thins thins₂.now).thins thins₃.now
  · exact src.thins thins₃.now
  · exact unpacked

/-- Removals do not open a path. -/
theorem shut_of_thins {p : Path} (h : Shut w.volume w.cwd p) (g : Moved Thins w w') :
    Shut w'.volume w'.cwd p := by
  rw [g.cwd]
  exact h.keep g.now.poorer.keeps

theorem clearRemnants_shuts (run : (s.clearRemnants deps).run o w = (.ok (), w')) :
    Shut w'.volume w'.cwd (s.srcDir deps) := by
  unfold clearRemnants io at run
  obtain ⟨_, w₁, _, run⟩ := run_bind_ok.1 (run_mapError_ok.1 run)
  obtain ⟨_, w₂, removed, run⟩ := run_bind_ok.1 run
  have shut := (removeTree_hides (srcDir_endsInName s deps) removed).1 rfl
  have := moves_removeTreeIfThere (s.unpackedDir deps) o w₂ rfl
  rw [run] at this
  exact shut_of_thins shut this

/-- Once the archive is there, nothing is left of earlier sources. -/
theorem fetchArchive_shuts (run : (s.fetchArchive deps).run o w = (.ok (), w')) :
    Shut w'.volume w'.cwd (s.srcDir deps) := by
  unfold fetchArchive at run
  obtain ⟨_, w₁, _, run⟩ := run_bind_ok.1 run
  obtain ⟨_, w₂, cleared, run⟩ := run_bind_ok.1 run
  have := moves_download s.url (s.archivePath deps) s.sha256 o w₂ rfl
  rw [run] at this
  rw [this.cwd]
  exact (clearRemnants_shuts cleared).keep this.now

theorem clearRemnants_exposes {x : BuildError} {w₁ : World}
    (made : (ensureDir deps).run o w = (.ok (), w₁))
    (run : (s.clearRemnants deps).run o w₁ = (.error x, w'))
    (h : s.isExtracted deps w'.volume w'.cwd = true) : ExposesMarker s deps o w := by
  unfold clearRemnants io at run
  obtain ⟨y, -, run⟩ := run_mapError_error.1 run
  rcases run_bind_error.1 run with run | ⟨_, w₂, _, run⟩
  · obtain rfl := removeFileIfThere_failed run
    exact .clearing made run h
  rcases run_bind_error.1 run with run | ⟨_, w₃, removed, run⟩
  · have hidden := (removeTree_hides (srcDir_endsInName s deps) run).2 _ isName_marker
    exact absurd (hidden.symm.trans h) (by simp)
  · have shut := (removeTree_hides (srcDir_endsInName s deps) removed).1 rfl
    have := moves_removeTreeIfThere (s.unpackedDir deps) o w₃ rfl
    rw [run] at this
    have hidden := not_extracted_of_shut (shut_of_thins shut this)
    exact absurd (hidden.symm.trans h) (by simp)

theorem fetchArchive_exposes (run : (s.fetchArchive deps).run o w = (.error e, w'))
    (h : s.isExtracted deps w'.volume w'.cwd = true) : ExposesMarker s deps o w := by
  unfold fetchArchive at run
  rcases run_bind_error.1 run with run | ⟨_, w₁, made, run⟩
  · obtain ⟨x, -, run⟩ := run_mapError_error.1 run
    exact .making run h
  have made := run_mapError_ok.1 made
  rcases run_bind_error.1 run with run | ⟨_, w₂, cleared, run⟩
  · exact clearRemnants_exposes made run h
  · have moved := moves_download s.url (s.archivePath deps) s.sha256 o w₂ rfl
    rw [run] at moved
    have shut : Shut w'.volume w'.cwd (s.srcDir deps) := by
      rw [moved.cwd]
      exact (clearRemnants_shuts cleared).keep moved.now
    exact absurd ((not_extracted_of_shut shut).symm.trans h) (by simp)

theorem ExposesMarker.run (h : ExposesMarker s deps o w) :
    ∃ e w', (s.fetchArchive deps).run o w = (.error e, w') ∧
      s.isExtracted deps w'.volume w'.cwd = true := by
  unfold fetchArchive
  cases h with
  | @making x _ failed seen =>
    exact ⟨.io x, _, run_bind_of_error (run_mapError_error.2 ⟨x, rfl, failed⟩), seen⟩
  | @clearing x _ made failed seen =>
    have made : (io (ensureDir deps)).run o w = (.ok (), _) := run_mapError_ok.2 made
    refine ⟨.io x, _, ?_, seen⟩
    rw [run_bind_of_ok made]
    refine run_bind_of_error (run_mapError_error.2 ⟨x, rfl, ?_⟩)
    exact run_bind_of_error failed

theorem unpack_extracted_iff (run : (s.unpack deps archive).run o w = (.error e, w')) :
    s.isExtracted deps w'.volume w'.cwd = true ↔ StopsMarked s deps archive o w := by
  constructor
  · exact unpack_stops_marked run
  · intro stopped
    obtain ⟨x, w₂, failed, seen⟩ := stopped.run
    rw [failed] at run
    cases run
    exact seen

theorem acquire_extracted_iff (unseen : s.isExtracted deps w.volume w.cwd = false)
    (run : (s.acquire deps).run o w = (.error e, w')) :
    s.isExtracted deps w'.volume w'.cwd = true ↔ ExposesMarker s deps o w ∨
      ∃ w₁, (s.fetchArchive deps).run o w = (.ok (), w₁) ∧ Shut w₁.volume w₁.cwd (s.srcDir deps) ∧
        StopsMarked s deps (s.archivePath deps) o w₁ := by
  rw [run_acquire unseen] at run
  constructor
  · intro seen
    rcases run_bind_error.1 run with run | ⟨_, w₁, fetched, run⟩
    · exact .inl (fetchArchive_exposes run seen)
    rcases run_bind_error.1 run with run | ⟨_, w₂, _, run⟩
    · exact .inr ⟨w₁, fetched, fetchArchive_shuts fetched, unpack_stops_marked run seen⟩
    · cases run
  · rintro (exposed | ⟨w₁, fetched, _, stopped⟩)
    · obtain ⟨x, w₂, failed, seen⟩ := exposed.run
      rw [run_bind_of_error failed] at run
      cases run
      exact seen
    · obtain ⟨x, w₂, failed, seen⟩ := stopped.run
      rw [run_bind_of_ok fetched, run_bind_of_error failed] at run
      cases run
      exact seen

/-- A failure leaves a source extracted only where it exposes an old marker, or where the unpacking
stops after its own marker has come into sight; and there it does. -/
theorem extracted_of_failed_iff (s : Source) (deps : Path) (o : Outside) (w : World) :
    (s.isExtracted deps w.volume w.cwd = false → ∀ e w',
      (s.acquire deps).run o w = (.error e, w') →
        (s.isExtracted deps w'.volume w'.cwd = true ↔ ExposesMarker s deps o w ∨
          ∃ w₁, (s.fetchArchive deps).run o w = (.ok (), w₁) ∧
            Shut w₁.volume w₁.cwd (s.srcDir deps) ∧
            StopsMarked s deps (s.archivePath deps) o w₁)) ∧
    ∀ archive e w', (s.unpack deps archive).run o w = (.error e, w') →
      (s.isExtracted deps w'.volume w'.cwd = true ↔ StopsMarked s deps archive o w) :=
  ⟨fun unseen _ _ run => acquire_extracted_iff unseen run, fun _ _ _ run => unpack_extracted_iff run⟩

section Crowded

/-- A source without a pinned digest, and an archive with a directory in the place of the marker. -/
def demo : Source := ⟨"demo", "0.1.0", "http://host/demo.tar.gz", none⟩

def crowded : Archive :=
  ⟨[⟨Bytes.ofText "demo-0.1.0/EXTRACTED/", .dir true, none⟩], true⟩

def crowdedOutside : Outside where
  exchange _ := ⟨[], .ok ⟨200, "OK", some []⟩⟩
  digest _ := ""
  archive _ := crowded
  spawn _ _ v := .ok ⟨v, [], .success⟩

def emptyWorld : World :=
  ⟨⟨⟨[([Bytes.ofText "deps"], .dir)]⟩, [], Path.ofText "/"⟩, [], [], []⟩

/-- The acquisition fails, and from then on the source counts as extracted. -/
theorem crowded_acquire_fails_extracted :
    demo.isExtracted "/deps" emptyWorld.volume emptyWorld.cwd = false ∧
      ((demo.acquire "/deps").run crowdedOutside emptyWorld).1.isOk = false ∧
      let after := ((demo.acquire "/deps").run crowdedOutside emptyWorld).2
      demo.isExtracted "/deps" after.volume after.cwd = true ∧
        (match ((demo.acquire "/deps").run crowdedOutside after).1 with
          | .ok .cached => true
          | _ => false) = true := by
  decide +kernel

/-- The archive is fetched, and it is the unpacking that stops with the marker in sight. -/
theorem extracted_of_failed_crowded :
    demo.isExtracted "/deps" emptyWorld.volume emptyWorld.cwd = false ∧
      ∃ e w', (demo.acquire "/deps").run crowdedOutside emptyWorld = (.error e, w') ∧
        demo.isExtracted "/deps" w'.volume w'.cwd = true ∧
        ∃ w₁, (demo.fetchArchive "/deps").run crowdedOutside emptyWorld = (.ok (), w₁) ∧
          StopsMarked demo "/deps" (demo.archivePath "/deps") crowdedOutside w₁ := by
  have unseen : demo.isExtracted "/deps" emptyWorld.volume emptyWorld.cwd = false := by decide
  have fetched : ((demo.fetchArchive "/deps").run crowdedOutside emptyWorld).1.isOk = true := by
    decide +kernel
  have failed : ((demo.acquire "/deps").run crowdedOutside emptyWorld).1.isOk = false := by
    decide +kernel
  have seen : demo.isExtracted "/deps" ((demo.acquire "/deps").run crowdedOutside emptyWorld).2.volume
      ((demo.acquire "/deps").run crowdedOutside emptyWorld).2.cwd = true := by
    decide +kernel
  rcases run : (demo.acquire "/deps").run crowdedOutside emptyWorld with ⟨e | x, w'⟩
  · rw [run] at seen
    refine ⟨unseen, e, w', rfl, seen, ?_⟩
    rcases ((extracted_of_failed_iff demo "/deps" crowdedOutside emptyWorld).1 unseen e w' run).1 seen with
      exposes | ⟨w₁, fetched, -, stops⟩
    · obtain ⟨_, _, stopped, -⟩ := exposes.run
      rw [stopped] at fetched
      cases fetched
    · exact ⟨w₁, fetched, stops⟩
  · rw [run] at failed
    cases failed

end Crowded

end PinnedDeps.Source
