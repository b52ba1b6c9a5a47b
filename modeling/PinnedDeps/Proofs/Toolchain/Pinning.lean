import PinnedDeps.Proofs.Toolchain.Lookup

/-!
Pinned compilers. A compiler that is found is pinned to where it was found, as text. Programs that are
started in other directories then run it if the place was absolute and is text. A place in a relative
directory of the search path stays relative, and one that is no text is written as another one.
-/
namespace PinnedDeps

open Bytes (ofText)

namespace Environ

open Lookup

variable {view : View} {base : Environ} {t : Tool}

/-- The value leads to a program by a way that does not start in the working directory. -/
def Portable (view : View) (value : Bytes) : Prop :=
  (⟨value⟩ : Path).isAbsolute = true ∧ view.leadsToProgram ⟨value⟩ = true

/-- What a compiler is to be pinned to: its name if nothing is found, or else a program that means the
same in every directory. -/
def Pinned (view : View) (base : Environ) (t : Tool) (value : Bytes) : Prop :=
  program? view base (Path.ofText (t.program base)) = none ∧ value = ofText (t.program base) ∨
    Portable view value

instance (view : View) (value : Bytes) : Decidable (Portable view value) :=
  inferInstanceAs (Decidable (_ ∧ _))

instance (view : View) (base : Environ) (t : Tool) (value : Bytes) : Decidable (Pinned view base t value) :=
  inferInstanceAs (Decidable (_ ∧ _ ∨ _))

theorem ofText_shown {p : Path} (text : (Bytes.toText? p.bytes).isSome = true) : ofText p.shown = p.bytes :=
  (Bytes.ofText_lossy_iff p.bytes).2 text

/-- Shown as text, a place that is text is as portable as it is absolute. -/
theorem portable_shown_iff {name p : Path} (found : program? view base name = some p)
    (text : (Bytes.toText? p.bytes).isSome = true) :
    Portable view (ofText p.shown) ↔ p.isAbsolute = true := by
  have program := leadsToProgram_of_program? found
  unfold Portable
  rw [ofText_shown text]
  exact ⟨fun h => h.1, fun absolute => ⟨absolute, program⟩⟩

/-- A compiler is pinned as it is to be exactly if nothing is found, or the place where it is found is
absolute, for which a name of several components suffices and a name of one needs an absolute directory.
If that place is no text, what it is written as has to lead to a program by chance. -/
theorem pinCompilers_pinned_iff (view : View) (base : Environ) {t : Tool} (ht : t ∈ compilers) :
    let name := Path.ofText (t.program base)
    ∃ value, (base.pinCompilers view).get? (ofText t.var) = some value ∧
      (Pinned view base t value ↔ ∀ p, program? view base name = some p →
        if (Bytes.toText? p.bytes).isSome then p.isAbsolute = true else Portable view (ofText p.shown)) ∧
      ∀ p, program? view base name = some p →
        (1 < name.components.length → p.isAbsolute = true) ∧
        (¬ 1 < name.components.length → ∃ list entry, base.get? (ofText "PATH") = some list ∧
          entry ∈ list.splitOn listSeparator ∧ p = (directory view.home entry).join name) ∧
        ((Bytes.toText? p.bytes).isSome → p.isAbsolute = true →
          ∀ cwd, view.volume.stat cwd ⟨value⟩ = view.volume.stat view.cwd p) := by
  intro name
  have pinned : (base.pinCompilers view).get? (ofText t.var) = some (found view base name.bytes) :=
    get?_pinCompilers_of_mem ht
  refine ⟨_, pinned, ?_, fun p place => ⟨fun several => isAbsolute_of_several several place,
    fun single => entry_of_single single place, fun text absolute cwd => ?_⟩⟩
  · unfold Pinned found
    cases place : program? view base name with
    | none => exact ⟨nofun, fun _ => .inl ⟨rfl, rfl⟩⟩
    | some p =>
      have unfound : ¬ (some p = none ∧ ofText p.shown = ofText (t.program base)) := fun h => nomatch h.1
      simp only [Option.map_some, Option.getD_some, Option.some.injEq, forall_eq']
      rw [or_iff_right unfound]
      split
      · exact portable_shown_iff place ‹_›
      · exact Iff.rfl
  · have same : program? view base ⟨name.bytes⟩ = some p := place
    have value : found view base name.bytes = p.bytes := by
      unfold found
      rw [same]
      exact ofText_shown text
    rw [value]
    exact Volume.stat_of_absolute absolute _ _ _

section Sample

theorem pinCompilers_pinned_iff_workshop : Tool.cxx ∈ compilers ∧
    ∃ value, ((searching (ofText "bin:/t")).pinCompilers workshop).get? (ofText "CXX") = some value ∧
      Pinned workshop (searching (ofText "bin:/t")) .cxx value := by
  have ht : Tool.cxx ∈ compilers := by decide
  obtain ⟨value, held, pinned, -⟩ := pinCompilers_pinned_iff workshop (searching (ofText "bin:/t")) ht
  refine ⟨ht, value, held, pinned.2 fun p place => ?_⟩
  have there : program? workshop (searching (ofText "bin:/t")) (Path.ofText "clang++") =
      some "/t/clang++" := by decide +kernel
  obtain rfl : p = "/t/clang++" := Option.some.inj (place.symm.trans there)
  decide +kernel

/-- A relative directory of the search path, and one that is no text. -/
theorem pinned_astray :
    (((searching (ofText "bin")).pinCompilers workshop).get? (ofText "CC") = some (ofText "bin/cc") ∧
      ¬ Pinned workshop (searching (ofText "bin")) .cc (ofText "bin/cc")) ∧
    (((searching [0x2f, 0xff]).pinCompilers workshop).get? (ofText "CC") = some (ofText "/\uFFFD/cc") ∧
      ¬ Pinned workshop (searching [0x2f, 0xff]) .cc (ofText "/\uFFFD/cc")) := by
  decide +kernel

end Sample

end Environ
end PinnedDeps
