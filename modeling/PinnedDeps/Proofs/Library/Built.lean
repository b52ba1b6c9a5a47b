import PinnedDeps.Library.Build
import PinnedDeps.Proofs.Library.Copying

/-!
A build in two cases, the names of the artifacts, and small worlds with the sources of zlib to build in.
-/
namespace PinnedDeps

open PinnedDeps.Action Volume

variable {o : Outside} {w w' : World} {lib : Library} {c : Config}

namespace Library

theorem isName_artifacts (lib : Library) (os : Os) :
    (∀ n ∈ (lib.artifacts os).lib, IsName (Bytes.ofText n)) ∧
      ∀ n ∈ (lib.artifacts os).bin, IsName (Bytes.ofText n) := by
  cases lib <;> cases os <;> decide

theorem artifacts_lib_ne_nil (lib : Library) (os : Os) : (lib.artifacts os).lib ≠ [] := by
  cases lib <;> cases os <;> decide

theorem run_build (lib : Library) (c : Config) : (lib.build c).run o w =
    if lib.isBuilt c w.toView then (.ok .alreadyBuilt, w)
    else (do
      mapError BuildError.io do
        ensureDir c.deps
        ensureDir c.layout.root
      discard (lib.source.acquire c.deps)
      lib.compile c
      lib.install c
      return BuildStatus.built).run o w := by
  unfold build
  rw [run_bind]
  show ((if lib.isBuilt c w.toView then _ else _ : Action BuildError BuildStatus)).run o w = _
  split <;> rfl

section Sample

/-- A world with entries at absolute paths, seen from the root. -/
def worldOf (es : List (String × Entry)) : World :=
  ⟨⟨⟨es.map fun e => ((Path.ofText e.1).segments.reverse, e.2)⟩, [], Path.ofText "/"⟩, [], [], []⟩

def text : Entry := .file ⟨[], plainMode, none⟩

def linkTo (t : String) : Entry := .link (Bytes.ofText t)

/-- No server answers, and programs end well without doing anything. -/
def quiet : Outside where
  exchange _ := ⟨[], .error .badUrl⟩
  digest _ := ""
  archive _ := ⟨[], true⟩
  spawn _ _ v := .ok ⟨v, [], .success⟩

def sample (os : Os) : Config where
  deps := "/d"
  layout := ⟨"/i", "Lib", "Bin"⟩
  target := none
  host := ⟨.x8664, os⟩
  env := Environ.empty
  maintenance := none
  programs := ⟨"cmake", "make", 1⟩

/-- The sources of zlib are there, and its prefix holds the entries given. -/
def zlibWorld (es : List (String × Entry)) : World :=
  worldOf <| [("/d", .dir), ("/d/zlib-1.2.11.src", .dir), ("/d/zlib-1.2.11.src/EXTRACTED", text),
    ("/d/zlib-1.2.11.install", .dir), ("/d/zlib-1.2.11.install/lib", .dir),
    ("/d/zlib-1.2.11.install/bin", .dir)] ++ es

def prefixEntries (es : List (String × Entry)) : List (String × Entry) :=
  es.map fun e => ("/d/zlib-1.2.11.install/" ++ e.1, e.2)

theorem ok_of_toOption {ε α : Type} {x : Except ε α} {a : α} (h : x.toOption = some a) :
    x = .ok a := by
  cases x with
  | error e => cases h
  | ok b => exact congrArg _ (Option.some.inj h)

theorem eq_of_toOption {ε α : Type} {x : Except ε α × World} {a : α}
    (h : x.1.toOption = some a) : x = (.ok a, x.2) := by
  obtain ⟨r, w⟩ := x
  exact congrArg (·, w) (ok_of_toOption h)

end Sample

end Library
end PinnedDeps
