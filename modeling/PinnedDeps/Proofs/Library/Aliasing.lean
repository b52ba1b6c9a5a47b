import PinnedDeps.Proofs.Library.Mirroring

/-!
Alias chains. Among the names of a directory, a link leads to another name and in the end to a file.
The copies of the links lead the same way through the copies of the names, in whatever order the
names have been copied, since each of them stands in its place once all have been copied.
-/
namespace PinnedDeps

open PinnedDeps.Action Volume
open Bytes (ofText)

namespace Volume

/-- From a name, so many links among the names of a directory lead to a file. -/
inductive Chain (v : Volume) (d : Location) (names : List String) : Nat → String → File → Prop
  | file {n f} : v.lookup (ofText n :: d) = some (.file f) → Chain v d names 0 n f
  | link {k n m f} : v.lookup (ofText n :: d) = some (.link (ofText m)) → m ∈ names →
      Chain v d names k m f → Chain v d names (k + 1) n f

variable {v u : Volume} {cwd d D : Location} {names : List String} {n : String} {f : File} {k N : Nat}
  {p : Path}

/-- A name starts a chain if it is a file or a link. -/
theorem Chain.entry (h : Chain v d names k n f) : v.lookup (ofText n :: d) = some (.file f) ∨
    ∃ m ∈ names, v.lookup (ofText n :: d) = some (.link (ofText m)) := by
  cases h with
  | file held => exact .inl held
  | @link _ _ m _ held listed _ => exact .inr ⟨m, listed, held⟩

/-- A chain stays where its names keep their entries. -/
theorem Chain.congr (h : Chain v d names k n f) (listed : n ∈ names)
    (same : ∀ m ∈ names, ∀ x, v.lookup (ofText m :: d) = some x → u.lookup (ofText m :: d) = some x) :
    Chain u d names k n f := by
  induction h with
  | file held => exact .file (same _ listed _ held)
  | link held next _ ih => exact .link (same _ listed _ held) next (ih next)

/-- Where copies of all of the names stand, each chain leads as far as the one that it is a copy of. -/
theorem Chain.copied (h : Chain v d names k n f) (listed : n ∈ names)
    (copies : ∀ m ∈ names, ∀ x, v.lookup (ofText m :: d) = some x →
      u.lookup (ofText m :: D) = some x.copied) :
    Chain u D names k n ⟨f.bytes, f.mode, none⟩ := by
  induction h with
  | file held => exact .file (copies _ listed _ held)
  | link held next _ ih => exact .link (copies _ listed _ held) next (ih next)

/-- Following links from the start of a chain stops at its file. -/
theorem Chain.passage (h : Chain v d names k n f) (listed : n ∈ names) (within : k ≤ N)
    (named : ∀ m ∈ names, IsName (ofText m)) (short : ∀ m ∈ names, (ofText m).length ≤ nameLimit) :
    ∃ m, Passage v true N d [ofText n] (.ok (.name d (ofText m))) ∧
      v.lookup (ofText m :: d) = some (.file f) := by
  have step : ∀ m ∈ names, IsStep (ofText m) := fun m hm =>
    ⟨(named m hm).notDot, (named m hm).notUp, short m hm⟩
  induction h generalizing N with
  | @file n f held =>
    refine ⟨n, .stop (step n listed) fun _ t link => ?_, held⟩
    rw [held] at link
    cases link
  | @link k n m f held next _ ih =>
    obtain ⟨M, rfl⟩ : ∃ M, N = M + 1 := ⟨N - 1, by omega⟩
    obtain ⟨last, walked, there⟩ := ih next (Nat.le_of_succ_le_succ within)
    -- The text of the link is a name, so the walk goes on in the directory of the link.
    have stays : startOf d (ofText m) = d := if_neg (named m next).relative
    have parts : strides (ofText m) = [ofText m] := by
      have noSlash : (⟨ofText m⟩ : Path).endsInSlash = false := by
        simpa [Path.endsInSlash] using (named m next).no_slash_last
      exact (Path.strides_eq noSlash).trans
        (Path.segments_of_name (named m next).nonempty (named m next).noSlash)
    refine ⟨last, .follow (step n listed) held (by simp) ?_, there⟩
    rw [stays, parts, List.append_nil]
    exact walked

/-- A chain may use the links that the way to its directory has left. -/
theorem Chain.readFile {i : Nat} (h : Chain v d names k n f) (listed : n ∈ names)
    (named : ∀ m ∈ names, IsName (ofText m)) (short : ∀ m ∈ names, (ofText m).length ≤ nameLimit)
    (way : Leads v i (startOf cwd p.bytes) p.segments d) (within : i + k ≤ maxLinks)
    (usable : checkPath (p / n) = .ok ()) : v.readFile cwd (p / n) = .ok f.bytes := by
  obtain ⟨m, walked, there⟩ := h.passage (N := maxLinks - i) listed (by omega) named short
  have reached : reach v cwd (p / n) true = .ok (.name d (ofText m)) := by
    refine reach_ok.2 ⟨usable, ?_⟩
    rw [Path.strides_eq (Path.endsInSlash_div p (named n listed)), Path.segments_div p (named n listed),
      Path.start_div p (named n listed)]
    exact way.passage (by omega) (by simp) walked
  have seen : v.stat cwd (p / n) = .ok (ofText m :: d, .file f) := stat_ok.2 ⟨_, reached, rfl, there⟩
  unfold Volume.readFile
  rw [seen]
  rfl

end Volume

/-- Names of a directory that lead through one another to files, and another directory in which none of
them is a directory. Both directories are reached without links, and the system accepts the paths. -/
structure Aliased (names : List String) (src dst : Path) (cwd : Location) (v : Volume) : Prop where
  named : ∀ n ∈ names, IsName (ofText n)
  short : ∀ n ∈ names, (ofText n).length ≤ nameLimit
  usable : ∀ n ∈ names, checkPath (src / n) = .ok () ∧ checkPath (dst / n) = .ok ()
  source : Direct v cwd src
  target : Direct v cwd dst
  apart : src.goal cwd ≠ dst.goal cwd
  chains : ∀ n ∈ names, ∃ k f, k ≤ maxLinks ∧ Chain v (src.goal cwd) names k n f
  free : ∀ n ∈ names, v.lookup (ofText n :: dst.goal cwd) ≠ some .dir

namespace Aliased

variable {v : Volume} {cwd : Location} {names : List String} {n : String} {src dst : Path} {o : Outside}
  {w : World}

/-- What is said of the text of a name when it is used as the text of a link. -/
theorem usable_text (h : Aliased names src dst cwd v) (listed : n ∈ names) :
    checkPath ⟨ofText n⟩ = .ok () := by
  obtain ⟨noNul, -, -⟩ := checkPath_ok.1 (h.usable n listed).1
  refine checkPath_ok.2 ⟨?_, (h.named n listed).nonempty, ?_⟩
  · obtain ⟨front, shape⟩ := Path.bytes_div src
    rw [shape n (h.named n listed)] at noNul
    simpa [Bytes.hasNul, not_or] using fun nul => by simp [Bytes.hasNul, nul] at noNul
  · have : nameLimit ≤ pathLimit := by decide
    exact Nat.le_trans (h.short n listed) this

/-- Every listed name can be copied. -/
theorem fits (h : Aliased names src dst cwd v) (listed : n ∈ names) :
    ∃ x, (⟨src, dst, n⟩ : Copy).Fits cwd v x := by
  obtain ⟨k, f, -, chain⟩ := h.chains n listed
  rcases chain.entry with held | ⟨m, next, held⟩
  · exact ⟨_, h.source, h.target, h.usable n listed, h.short n listed, held, by simp, nofun, h.free n listed⟩
  · refine ⟨_, h.source, h.target, h.usable n listed, h.short n listed, held, by simp, ?_, h.free n listed⟩
    rintro t ⟨⟩
    exact h.usable_text next

end Aliased

section Copies

variable {names : List String} {src dst : Path} {o : Outside} {w : World}

/-- Names that can all be copied between two directories are all copied, however often one is listed. -/
theorem run_copyArtifacts (named : ∀ n ∈ names, IsName (ofText n))
    (apart : src.goal w.cwd ≠ dst.goal w.cwd)
    (fits : ∀ n ∈ names, ∃ x, (⟨src, dst, n⟩ : Copy).Fits w.cwd w.volume x) :
    ∃ w', (copyArtifacts src dst names).run o w = (.ok (), w') ∧ w'.cwd = w.cwd ∧
      Copy.Mirrored (names.map (⟨src, dst, ·⟩)) w.cwd w.volume w'.volume := by
  rw [Artifacts.copyArtifacts_eq]
  induction names generalizing w with
  | nil => exact ⟨w, rfl, rfl, .nil _ _⟩
  | cons n names ih =>
    let j : Copy := ⟨src, dst, n⟩
    obtain ⟨x, fit⟩ := fits n (by simp)
    obtain ⟨w₁, ran, cwd₁, made⟩ := fit.run_make (o := o) (named n (by simp)) apart
    have origin : ∀ m : String, (⟨src, dst, m⟩ : Copy).origin w.cwd ≠ j.place w.cwd :=
      fun m e => apart (List.cons.inj e).2
    -- What is still to be copied is as it was, and no place has become a directory.
    have later : ∀ m ∈ names, ∀ y, (⟨src, dst, m⟩ : Copy).Fits w.cwd w.volume y →
        (⟨src, dst, m⟩ : Copy).Fits w.cwd w₁.volume y := by
      intro m _ y hy
      refine hy.congr (made.dirs fit.free) ?_ ?_
      · rw [made, if_neg (origin m)]
      · rw [made]
        split
        · exact fun e => Entry.copied_ne_dir fit.notDir (Option.some.inj e)
        · exact hy.free
    obtain ⟨w', rest, cwd', mirrored⟩ := ih (w := w₁) (fun m hm => named m (by simp [hm])) (cwd₁ ▸ apart)
      (fun m hm => by
        obtain ⟨y, hy⟩ := fits m (by simp [hm])
        exact ⟨y, cwd₁ ▸ later m hm y hy⟩)
    rw [cwd₁] at cwd' mirrored
    refine ⟨w', ?_, cwd', fun k hk => ?_, fun l hl => ?_⟩
    · rw [List.map_cons, forM_cons, run_bind_of_ok ran, rest]
    · obtain ⟨m, hm, rfl⟩ := List.mem_map.1 hk
      obtain ⟨y, hy⟩ := fits m hm
      refine ⟨y, hy, ?_⟩
      -- A name that is listed again is copied again, from an original that is as it was.
      by_cases again : m ∈ names
      · obtain ⟨z, hz, there⟩ := mirrored.copied _ (List.mem_map_of_mem again)
        have same := hz.seen.symm.trans (later m again y hy).seen
        rwa [Option.some.inj same] at there
      · obtain rfl : m = n := (List.mem_cons.1 hm).resolve_right again
        obtain rfl : x = y := Option.some.inj (fit.seen.symm.trans hy.seen)
        rw [mirrored.rest, made, if_pos rfl]
        intro k hk
        obtain ⟨i, hi, rfl⟩ := List.mem_map.1 hk
        exact Copy.place_ne fun same : m = i => again (same ▸ hi)
    · rw [mirrored.rest l fun k hk => hl k (by simp only [List.map_cons, List.mem_cons, hk, or_true]), made,
        if_neg (hl j (by simp [j]))]

end Copies

/-- Names that lead through one another to files are all copied, in whatever order they are listed.
Each is then read through the copies as it is read through the originals, links are links of the same
text, and nothing else has changed, not even what a replaced link led to. -/
theorem copyArtifacts_reads (names : List String) (src dst : Path) (o : Outside) (w : World)
    (aliased : Aliased names src dst w.cwd w.volume) :
    ∃ w', (copyArtifacts src dst names).run o w = (.ok (), w') ∧ w'.cwd = w.cwd ∧
      (∀ n ∈ names, ∃ b, w.volume.readFile w.cwd (src / n) = .ok b ∧
        w'.volume.readFile w'.cwd (src / n) = .ok b ∧ w'.volume.readFile w'.cwd (dst / n) = .ok b) ∧
      (∀ n ∈ names, Artifacts.Copied w w' (src / n) (dst / n)) ∧
      ∀ l, l ∉ names.map (fun n => (dst / n).goal w.cwd) → w'.volume.lookup l = w.volume.lookup l := by
  obtain ⟨w', ran, cwd, mirrored⟩ := run_copyArtifacts (o := o) aliased.named aliased.apart
    fun n listed => aliased.fits listed
  have place : ∀ n ∈ names, (dst / n).goal w.cwd = ofText n :: dst.goal w.cwd :=
    fun n listed => Path.goal_div (aliased.named n listed) _
  have rest : ∀ l, (∀ n ∈ names, l ≠ ofText n :: dst.goal w.cwd) →
      w'.volume.lookup l = w.volume.lookup l := by
    refine fun l hl => mirrored.rest l fun k hk => ?_
    obtain ⟨n, listed, rfl⟩ := List.mem_map.1 hk
    exact hl n listed
  have kept : ∀ n, w'.volume.lookup (ofText n :: src.goal w.cwd) =
      w.volume.lookup (ofText n :: src.goal w.cwd) :=
    fun n => rest _ fun m _ e => aliased.apart (List.cons.inj e).2
  have copies : ∀ n ∈ names, ∀ x, w.volume.lookup (ofText n :: src.goal w.cwd) = some x →
      w'.volume.lookup (ofText n :: dst.goal w.cwd) = some x.copied := by
    intro n listed x held
    obtain ⟨y, fits, there⟩ := mirrored.copied _ (List.mem_map_of_mem listed)
    obtain rfl : y = x := Option.some.inj (fits.seen.symm.trans held)
    exact there
  have source := aliased.source.keep mirrored.dirs
  have target := aliased.target.keep mirrored.dirs
  refine ⟨w', ran, cwd, fun n listed => ?_, fun n listed => ?_, fun l hl => rest l fun n listed e => hl ?_⟩
  · obtain ⟨k, f, within, chain⟩ := aliased.chains n listed
    obtain ⟨usable, usable'⟩ := aliased.usable n listed
    rw [cwd]
    have within : 0 + k ≤ maxLinks := by omega
    refine ⟨f.bytes, chain.readFile listed aliased.named aliased.short aliased.source within usable, ?_, ?_⟩
    · exact (chain.congr listed fun m _ _ => (kept m).trans).readFile listed aliased.named aliased.short source
        within usable
    · exact (chain.copied listed copies).readFile listed aliased.named aliased.short target within usable'
  · obtain ⟨x, fits⟩ := aliased.fits listed
    have named := aliased.named n listed
    refine ⟨x, fits.notDir, ?_, ?_, ?_⟩
    · rw [Path.goal_div named]
      exact fits.seen
    · rw [Path.goal_div named, cwd]
      exact (entryAt_div named).2
        ⟨fits.usable.1, fits.short, _, source.opens, rfl, (kept n).trans fits.seen⟩
    · rw [place n listed, cwd]
      exact (entryAt_div named).2
        ⟨fits.usable.2, fits.short, _, target.opens, rfl, copies n listed x fits.seen⟩
  · exact List.mem_map.2 ⟨n, listed, (place n listed).trans e.symm⟩

section Sample

open Library

/-- A file, a link to it and a link to that link. In the other directory, where they are to be copied,
one of the names is a link to a file elsewhere and another leads nowhere. -/
def chained : World := worldOf [("/s", .dir), ("/s/a", .file ⟨ofText "new", 0o755, none⟩),
  ("/s/b", linkTo "a"), ("/s/c", linkTo "b"),
  ("/t", .dir), ("/t/a", linkTo "/e"), ("/t/c", linkTo "x"), ("/e", .file ⟨ofText "old", 0o644, none⟩)]

theorem copyArtifacts_reads_chained : Aliased ["c", "a", "b", "a"] "/s" "/t" chained.cwd chained.volume ∧
    ∃ w', (copyArtifacts "/s" "/t" ["c", "a", "b", "a"]).run quiet chained = (.ok (), w') ∧
      (∃ b, chained.volume.readFile chained.cwd (("/s" : Path) / "c") = .ok b ∧
        w'.volume.readFile w'.cwd (("/t" : Path) / "c") = .ok b) ∧
      w'.volume.lookup [ofText "e"] = some (.file ⟨ofText "old", 0o644, none⟩) := by
  have a : chained.volume.Chain [ofText "s"] ["c", "a", "b", "a"] 0 "a" ⟨ofText "new", 0o755, none⟩ :=
    .file (by decide +kernel)
  have b := Chain.link (n := "b") (by decide +kernel) (by decide) a
  have c := Chain.link (n := "c") (by decide +kernel) (by decide) b
  have way : ∀ n : String, n = "s" ∨ n = "t" → Direct chained.volume chained.cwd (Path.ofText ("/" ++ n)) := by
    rintro n (rfl | rfl)
    · exact .enter ⟨by decide, by decide, by decide⟩ (by decide +kernel) .done
    · exact .enter ⟨by decide, by decide, by decide⟩ (by decide +kernel) .done
  have aliased : Aliased ["c", "a", "b", "a"] "/s" "/t" chained.cwd chained.volume := by
    refine ⟨by decide, by decide, fun n hn => ?_, way "s" (.inl rfl), way "t" (.inr rfl), by decide,
      fun n hn => ?_, by decide +kernel⟩
    · have : ∀ n ∈ ["c", "a", "b", "a"], (checkPath (("/s" : Path) / n)).toOption = some () ∧
          (checkPath (("/t" : Path) / n)).toOption = some () := by decide +kernel
      exact ⟨ok_of_toOption (this n hn).1, ok_of_toOption (this n hn).2⟩
    · obtain rfl | rfl | rfl | rfl : n = "c" ∨ n = "a" ∨ n = "b" ∨ n = "a" := by simpa using hn
      · exact ⟨_, _, by decide, c⟩
      · exact ⟨_, _, by decide, a⟩
      · exact ⟨_, _, by decide, b⟩
      · exact ⟨_, _, by decide, a⟩
  obtain ⟨w', ran, -, reads, -, rest⟩ := copyArtifacts_reads _ "/s" "/t" quiet chained aliased
  obtain ⟨read, before, -, after⟩ := reads "c" (by decide)
  exact ⟨aliased, w', ran, ⟨read, before, after⟩, (rest _ (by decide)).trans (by decide +kernel)⟩

end Sample

end PinnedDeps
