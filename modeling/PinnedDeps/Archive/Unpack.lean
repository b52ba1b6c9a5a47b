import PinnedDeps.Action.Files

/-!
Unpacking the members of an archive below a directory. A member never lands outside it: names with
`..` are passed over, and the directory a member is put into must really lie inside.

These are the rules of an unpacker that the library relies on, fixed here as definitions. Its writings are
whole, as for a privileged process with room for all of them, and a directory is made without the permission
bits that its member gives, since nothing is refused by them.
-/
namespace PinnedDeps

inductive UnpackError where
  | refused (cause : IoError)
  | outside (p : Path)
  | noLinkTarget
  | damaged
  deriving DecidableEq, Repr

/-- The names below the destination at which a member is put, or nothing if it is passed over. -/
def Member.names? (m : Member) : Option (List Bytes) :=
  let cs := (Path.components ⟨m.path⟩).filter fun c => c ≠ .root ∧ c ≠ .current
  let ns := cs.filterMap fun
    | .name n => some n
    | _ => none
  if .up ∈ cs ∨ ns = [] then none else some ns

namespace Unpack

abbrev Unpacking := Action UnpackError

def refusable {α : Type} (a : Action IoError α) : Unpacking α := a.mapError .refused

/-- Succeeds if the path really leads into the destination. -/
def mustBeInside (dest p : Path) : Unpacking Unit := do
  let (l, _) ← refusable (.ask fun v cwd => v.stat cwd p)
  let (top, _) ← refusable (.ask fun v cwd => v.stat cwd dest)
  if Volume.Below l top then return () else throw (.outside p)

/-- Of the directories above a member, those that are missing, nearest to the root first. -/
def missingAbove : List Path → List Path → Unpacking (List Path)
  | [], missing => return missing
  | p :: above, missing => do
    if (← Action.look fun v cwd => (v.entryAt cwd p).isOk) then return missing
    else missingAbove above (p :: missing)

def ensureParents (dest parent : Path) : Unpacking Unit := do
  (← missingAbove parent.ancestors []).forM fun p => do
    (p.parent?).forM (mustBeInside dest)
    refusable (Action.ensureDir p)

def makeDirAt (p : Path) : Unpacking Unit :=
  tryCatch (refusable (.change fun v cwd => v.makeDir cwd p)) fun e => do
    match e, ← Action.look fun v cwd => v.entryAt cwd p with
    | .refused (.system .alreadyExists), .ok (_, .dir) => return ()
    | e, _ => throw e

/-- Runs an action that makes an entry; if one is there already, it is removed first. -/
def replacing {α : Type} (p : Path) (a : Action IoError α) : Unpacking α :=
  refusable (tryCatch a fun e => do
    if e = .system .alreadyExists then
      Action.removeFileIfThere p
      a
    else throw e)

def putFile (p : Path) (body : Body) (mode : Option Nat) : Unpacking Unit := do
  let l ← replacing p (.changeAt fun v cwd => v.openNew cwd p Volume.plainMode)
  Action.commit (← Action.look fun v _ => v.append l body.bytes)
  if body.cut then throw .damaged
  if let some m := mode then
    Action.commit (← Action.look fun v _ => v.setMode l m)

def linkText : Option Bytes → Unpacking Bytes
  | none | some [] => throw .noLinkTarget
  | some t => return t

def putKind (dest p : Path) (m : Member) : Unpacking Unit :=
  match m.kind with
  | .dir _ => makeDirAt p
  | .file body => putFile p body m.mode
  | .symlink target => do
    let t ← linkText target
    replacing p (.change fun v cwd => v.makeLink cwd t p)
  | .hardLink target => do
    let src := dest.join ⟨← linkText target⟩
    mustBeInside dest src
    refusable (.change fun v cwd => v.hardLink cwd src p)
  | .note => return ()

def putMember (dest : Path) (m : Member) : Unpacking Unit :=
  match m.names? with
  | none => return ()
  | some ns => do
    let parent := dest.extend (ns.dropLast.map .name)
    ensureParents dest parent
    mustBeInside dest parent
    putKind dest (dest.extend (ns.map .name)) m

def isLate (m : Member) : Bool := m.kind == .dir true

/-- The destination is made if nothing is there. Members are put in their order, then the
directories with the last name first. -/
def unpack (archive : Archive) (dest : Path) : Unpacking Unit := do
  if !(← Action.look fun v cwd => (v.entryAt cwd dest).isOk) then
    refusable (Action.ensureDir dest)
  let dest ← Action.look fun v cwd => match v.stat cwd dest with
    | .ok (l, _) => Location.path l
    | .error _ => dest
  (archive.members.filter (!isLate ·)).forM (putMember dest)
  if !archive.intact then throw .damaged
  ((archive.members.filter isLate).mergeSort fun a b => b.path ≤ a.path).forM (putMember dest)

end Unpack
end PinnedDeps
