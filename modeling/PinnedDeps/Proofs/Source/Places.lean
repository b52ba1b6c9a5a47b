import PinnedDeps.Proofs.Volume.Outcome
import PinnedDeps.Source

/-!
The names of a source in the directory of dependencies, and where they stand. They are three
different names, and a directory in which a path to the archive can be used takes them all.
-/
namespace PinnedDeps.Source

open Bytes (ofText slash)
open Volume

variable {s : Source} {j top : Location}

theorem ofText_stem (s : Source) :
    ofText s.stem = ofText s.name ++ ofText "-" ++ ofText s.version := by
  unfold stem
  simp only [Bytes.ofText_append, toString]

theorem isName_marker : IsName (ofText markerName) := by decide

/-- The names of the source are plain. -/
structure Named (s : Source) : Prop where
  name : slash ∉ ofText s.name
  version : slash ∉ ofText s.version

/-- The stem with one of its endings. -/
theorem Named.isName (h : s.Named) (ending : String) (he : slash ∉ ofText ending) :
    IsName (ofText (s.stem ++ ending)) := by
  have hyphen : (0x2d : UInt8) ∈ ofText (s.stem ++ ending) := by
    rw [Bytes.ofText_append, ofText_stem]
    have : (0x2d : UInt8) ∈ ofText "-" := by decide
    simp [this]
  refine ⟨?_, ?_, ?_, ?_⟩
  · intro g
    rw [g] at hyphen
    cases hyphen
  · have : slash ∉ ofText "-" := by decide
    rw [Bytes.ofText_append, ofText_stem]
    simp [h.name, h.version, he, this]
  · intro g
    rw [g] at hyphen
    exact absurd hyphen (by decide)
  · intro g
    rw [g] at hyphen
    exact absurd hyphen (by decide)

theorem Named.stem (h : s.Named) : IsName (ofText s.stem) := by
  have : slash ∉ ofText "" := by decide
  simpa using h.isName _ this

theorem Named.archive (h : s.Named) : IsName (ofText s.archiveName) :=
  h.isName ".tar.gz" (by decide)

theorem Named.src (h : s.Named) : IsName (ofText (s.stem ++ ".src")) := h.isName ".src" (by decide)

/-- Where the archive can stand, there is room for the other names, which are no longer. -/
theorem Named.fits {deps : Path} (h : s.Named) (hc : checkPath (s.archivePath deps) = .ok ())
    (hl : (ofText s.archiveName).length ≤ nameLimit) (ending : String)
    (he : slash ∉ ofText ending) (hnul : 0 ∉ ofText ending) (hlen : (ofText ending).length ≤ 7) :
    checkPath (deps / (s.stem ++ ending)) = .ok () ∧
      (ofText (s.stem ++ ending)).length ≤ nameLimit := by
  obtain ⟨m, hm⟩ := Path.bytes_div deps
  have size : (ofText ".tar.gz").length = 7 := by decide
  obtain ⟨hn, _, hp⟩ := checkPath_ok.1 hc
  rw [show (s.archivePath deps).bytes = _ from hm s.archiveName h.archive] at hn hp
  simp only [archiveName, Bytes.ofText_append, List.length_append, size] at hl hp hn ⊢
  refine ⟨checkPath_ok.2 ⟨?_, Path.bytes_div_ne_nil _ (h.isName _ he), ?_⟩, by omega⟩
  · rw [hm _ (h.isName _ he), Bytes.ofText_append]
    simp only [Bytes.hasNul, List.contains_append, Bool.or_eq_false_iff] at hn ⊢
    exact ⟨hn.1, hn.2.1, by simpa using hnul⟩
  · rw [hm _ (h.isName _ he), Bytes.ofText_append]
    simp only [List.length_append]
    omega

def archiveAt (s : Source) (top : Location) : Location := ofText s.archiveName :: top

def unpackedAt (s : Source) (top : Location) : Location := ofText s.stem :: top

def srcAt (s : Source) (top : Location) : Location := ofText (s.stem ++ ".src") :: top

def markerAt (s : Source) (top : Location) : Location := ofText markerName :: s.srcAt top

/-- The three names differ in their length. -/
theorem names_ne (s : Source) : ofText s.stem ≠ ofText (s.stem ++ ".src") ∧
    ofText s.archiveName ≠ ofText s.stem ∧ ofText s.archiveName ≠ ofText (s.stem ++ ".src") := by
  have sizes : (ofText ".src").length = 4 ∧ (ofText ".tar.gz").length = 7 := by decide
  refine ⟨?_, ?_, ?_⟩ <;>
  · intro g
    have := congrArg List.length g
    simp only [archiveName, Bytes.ofText_append, List.length_append, sizes] at this
    omega

/-- The names that a source takes in the directory. -/
def names (s : Source) : List String := [s.archiveName, s.stem, s.stem ++ ".src"]

theorem inside_archiveAt (s : Source) (top : Location) : Inside (s.archiveAt top) top :=
  inside_cons _ _

theorem inside_of_src {l top : Location} (h : Below l (s.srcAt top)) : Inside l top := h.inside

theorem markerAt_below (s : Source) (top : Location) : Below (s.markerAt top) (s.srcAt top) :=
  below_cons _ _

theorem inside_markerAt (s : Source) (top : Location) : Inside (s.markerAt top) top :=
  inside_of_src (markerAt_below s top)

theorem ne_archiveAt_of_unpacked (h : Below j (s.unpackedAt top)) : j ≠ s.archiveAt top := by
  rintro rfl
  exact not_below_of_ne s.names_ne.2.1.symm h (below_refl _)

theorem ne_archiveAt_of_src (h : Below j (s.srcAt top)) : j ≠ s.archiveAt top := by
  rintro rfl
  exact not_below_of_ne s.names_ne.2.2.symm h (below_refl _)

theorem not_src_of_unpacked (h : Below j (s.unpackedAt top)) : ¬ Below j (s.srcAt top) :=
  not_below_of_ne s.names_ne.1 h

theorem not_unpacked_of_src (h : Below j (s.srcAt top)) : ¬ Below j (s.unpackedAt top) :=
  not_below_of_ne s.names_ne.1.symm h

theorem archiveAt_not_unpacked : ¬ Below (s.archiveAt top) (s.unpackedAt top) :=
  fun h => ne_archiveAt_of_unpacked h rfl

theorem archiveAt_not_src : ¬ Below (s.archiveAt top) (s.srcAt top) :=
  fun h => ne_archiveAt_of_src h rfl

/-- Where the entries of the source stand. -/
def Own (s : Source) (top l : Location) : Prop :=
  l = s.archiveAt top ∨ Below l (s.unpackedAt top) ∨ Below l (s.srcAt top)

instance (s : Source) (top l : Location) : Decidable (s.Own top l) :=
  inferInstanceAs (Decidable (_ ∨ _))

theorem own_archive (s : Source) (top : Location) : s.Own top (s.archiveAt top) := .inl rfl

theorem own_of_unpacked {l : Location} (h : Below l (s.unpackedAt top)) : s.Own top l := .inr (.inl h)

theorem own_of_src {l : Location} (h : Below l (s.srcAt top)) : s.Own top l := .inr (.inr h)

theorem Own.inside {l : Location} (h : s.Own top l) : Inside l top := by
  rcases h with rfl | h | h
  · exact inside_archiveAt s top
  · exact h.inside
  · exact h.inside

theorem Own.named {l : Location} (h : s.Own top l) : ∃ n ∈ s.names, Below l (ofText n :: top) := by
  rcases h with rfl | h | h
  · exact ⟨s.archiveName, by simp [names], below_refl _⟩
  · exact ⟨s.stem, by simp [names], h⟩
  · exact ⟨s.stem ++ ".src", by simp [names], h⟩

/-- Sources without a name in common have no entry in common. -/
theorem own_apart {a b : Source} {l : Location} (apart : ∀ n ∈ a.names, n ∉ b.names)
    (h : a.Own top l) : ¬ b.Own top l := by
  intro g
  obtain ⟨n, hn, below⟩ := h.named
  obtain ⟨m, hm, below'⟩ := g.named
  refine not_below_of_ne (fun same => apart n hn ?_) below below'
  rwa [Bytes.ofText_inj.1 same]

/-- Moved to where nothing is, the unpacked tree is the tree of the sources. -/
theorem lookup_placed {v : Volume} (gone : Gone v (s.srcAt top)) (r : Location) :
    (v.relocate (s.unpackedAt top) (s.srcAt top)).lookup (r ++ s.srcAt top) =
      v.lookup (r ++ s.unpackedAt top) :=
  lookup_relocate_below (by simp [srcAt]) (by simp [unpackedAt])
    (fun b => not_unpacked_of_src (below_refl _) b) (fun l hl => gone l hl.1) r

/-- In the tree at a location something has been put, but no marker, and nothing elsewhere. -/
structure Grows (root : Location) (v u : Volume) : Prop where
  outside : ∀ l, ¬ Below l root → u.lookup l = v.lookup l
  tree : TreeAt u root
  marker : u.lookup (ofText markerName :: root) = none

end PinnedDeps.Source
