import PinnedDeps.Outside
import PinnedDeps.Archive.Gzip

/-!
The members of a tar archive inside a gzip file: ustar and GNU headers, long names, extended headers
and sparse files. Reading stops at the first block of zeros or at an end of the file where a header
could start; any other end is damage.
-/
namespace PinnedDeps.Tar

open Gzip (Stream)

def blockSize : Nat := 512

/-- Bytes are written to a file in pieces of this size, and a piece that cannot be read is lost. -/
def pieceSize : Nat := 8192

abbrev Header := Bytes

namespace Header

def field (h : Header) (start size : Nat) : Bytes := (h.drop start).take size

def upToNul (b : Bytes) : Bytes := b.takeWhile (· ≠ 0)

def text (h : Header) (start size : Nat) : Bytes := upToNul (h.field start size)

def isUstar (h : Header) : Bool := h.field 257 8 == Bytes.ofText "ustar\x0000"

def isGnu (h : Header) : Bool := h.field 257 8 == Bytes.ofText "ustar  \x00"

def kindByte (h : Header) : UInt8 := h[156]?.getD 0

/-- The name, with the leading part that a ustar header may hold. -/
def path (h : Header) : Bytes :=
  let name := h.text 0 100
  let lead := h.text 345 155
  if h.isUstar ∧ lead ≠ [] then lead ++ Bytes.slash :: name else name

def linkName (h : Header) : Option Bytes :=
  let name := h.text 157 100
  if name = [] then none else some name

end Header

def maxNumber : Nat := 0x10000000000000000

def isBlank (b : UInt8) : Bool := b == 0x20 || (0x09 ≤ b && b ≤ 0x0d)

def trim (b : Bytes) : Bytes := ((b.dropWhile isBlank).reverse.dropWhile isBlank).reverse

/-- Digits of a base; there is at least one, and a plus sign may stand before them. -/
def digits (base : Nat) (b : Bytes) : Option Nat := do
  let b := if b.head? = some 0x2b then b.tail else b
  guard (b ≠ [])
  let n ← b.foldlM (fun n d =>
    if 0x30 ≤ d ∧ d.toNat < 0x30 + base then some (n * base + (d.toNat - 0x30)) else none) 0
  guard (n < maxNumber)
  return n

def octal (b : Bytes) : Option Nat := digits 8 (trim (Header.upToNul b))

/-- A number in octal, or in base 256 if its first bit is set. -/
def number (b : Bytes) : Option Nat :=
  match b with
  | first :: rest =>
    if first < 0x80 then octal b
    else
      let kept := if b.length = 8 then (first - 0x80) :: rest else b.drop (b.length - 8)
      some (kept.foldl (fun n x => n * 256 + x.toNat) 0)
  | [] => none

def checksum (h : Header) : Nat :=
  (h.take 148 ++ h.drop 156).foldl (fun n b => n + b.toNat) (8 * 32)

/-- Records of the form `length key=value`, one a line. -/
def records (b : Bytes) : List (Option (Bytes × Bytes)) :=
  ((b.splitOn Bytes.newline).takeWhile (· ≠ [])).map fun line => do
    let size := line.takeWhile (· ≠ 0x20)
    let pair := line.drop (size.length + 1)
    let key := pair.takeWhile (· ≠ 0x3d)
    guard (size.length < line.length ∧ digits 10 size = some (line.length + 1))
    guard (key.length < pair.length)
    return (key, pair.drop (key.length + 1))

def recordOf (b : Bytes) (key : String) : Option Bytes :=
  ((records b).filterMap id).lookup (Bytes.ofText key)

/-- The size in the records; a malformed record before it hides it. -/
def recordedSize (b : Bytes) : Option Nat :=
  (((records b).takeWhile Option.isSome).filterMap id).lookup (Bytes.ofText "size")
    |>.bind (digits 10)

/-- A position in the archive: what is still to be read, and how much was read. -/
structure Reader where
  stream : Stream
  position : Nat

inductive Got where
  | all (b : Bytes) (r : Reader)
  | part (b : Bytes) (r : Reader)
  | broken (b : Bytes)

/-- Reads that many bytes, in pieces of at most `piece`. -/
def take (piece : Nat) : Nat → Nat → Bytes → Reader → Got
  | 0, _, done, r => .part done r
  | fuel + 1, want, done, r =>
    if want = 0 then .all done r
    else match r.stream.read (min piece want) with
      | none => .broken done
      | some ([], _) => .part done r
      | some (b, s) => take piece fuel (want - b.length) (done ++ b) ⟨s, r.position + b.length⟩

/-- What is known of the next member from the records before it. -/
structure Ahead where
  longName : Option Bytes
  longLink : Option Bytes
  extended : Option Bytes
  deriving DecidableEq

def nothingAhead : Ahead := ⟨none, none, none⟩

def dropFinalNul (b : Bytes) : Bytes := if b.getLast? = some 0 then b.dropLast else b

def memberPath (h : Header) (a : Ahead) : Bytes :=
  match a.longName, a.extended.bind (recordOf · "path") with
  | some n, _ => dropFinalNul n
  | none, some n => n
  | none, none => h.path

def memberLink (h : Header) (a : Ahead) : Option Bytes :=
  match a.longLink, a.extended.bind (recordOf · "linkpath") with
  | some n, _ => some (dropFinalNul n)
  | none, some n => some n
  | none, none => h.linkName

/-- A stretch of a sparse file: where its bytes go and how many there are. -/
structure Stretch where
  start : Nat
  size : Nat

def stretch? (b : Bytes) : Option (Option Stretch) :=
  if b.head? = some 0 ∨ b[12]?.getD 0 = 0 then some none
  else do return some ⟨← number (b.take 12), ← number (b.drop 12)⟩

def stretches (b : Bytes) (count : Nat) : Option (List Stretch) := do
  let all ← ((List.range count).map fun i => (b.drop (24 * i)).take 24).mapM stretch?
  return all.filterMap id

/-- Further blocks that list stretches, as long as one says that another follows. -/
def moreStretches : Nat → Bool → Reader → Option (List Stretch × Reader)
  | 0, _, _ => none
  | fuel + 1, goOn, r =>
    if goOn then
      match take blockSize blockSize blockSize [] r with
      | .all b r => do
        let here ← stretches b 21
        let (rest, r) ← moreStretches fuel (b[504]?.getD 0 = 1) r
        return (here ++ rest, r)
      | _ => none
    else some ([], r)

/-- Stretches follow one another, all but the last fill whole blocks, and they hold exactly the
bytes of the member. -/
def fits (size : Nat) : Nat → Nat → List Stretch → Option Nat
  | at_, used, [] => if used = size then some at_ else none
  | at_, used, s :: rest =>
    if s.size ≠ 0 ∧ used % blockSize ≠ 0 then none
    else if s.start < at_ ∨ maxNumber ≤ s.start + s.size ∨ size < used + s.size then none
    else fits size (s.start + s.size) (used + s.size) rest

def readStretches (fuel : Nat) : Nat → Bytes → List Stretch → Reader → Got
  | _, done, [], r => .all done r
  | at_, done, s :: rest, r =>
    let filled := done ++ List.replicate (s.start - at_) 0
    match take pieceSize fuel s.size filled r with
    | .all b r => readStretches fuel (s.start + s.size) b rest r
    | other => other

/-- A body and where the archive goes on after it. -/
def readBody (fuel size : Nat) (h : Header) (r : Reader) : Option (Got × Reader) :=
  if h.kindByte = 0x53 then do
    guard h.isGnu
    let first ← stretches (h.drop 386) 4
    let (more, r) ← moreStretches fuel (h[482]?.getD 0 = 1) r
    let real ← number (h.field 483 12)
    guard (fits size 0 0 (first ++ more) = some real)
    return (readStretches fuel 0 [] (first ++ more) r, r)
  else some (take pieceSize fuel size [] r, r)

inductive Use where
  | longName
  | longLink
  | extended
  | member

/-- Only a header that names its format can describe the member after it. -/
def useOf (h : Header) : Use :=
  if h.isUstar ∨ h.isGnu then
    if h.kindByte = 0x4c then .longName
    else if h.kindByte = 0x4b then .longLink
    else if h.kindByte = 0x78 then .extended
    else .member
  else .member

def hasBody (h : Header) (path : Bytes) : Bool :=
  let named := !h.isUstar && path.getLast? == some Bytes.slash
  !([0x35, 0x31, 0x32, 0x67, 0x78, 0x4c, 0x4b].contains h.kindByte) && !named

def kindOf (h : Header) (a : Ahead) (body : Body) : MemberKind :=
  let path := memberPath h a
  match h.kindByte with
  | 0x35 => .dir true
  | 0x31 => .hardLink (memberLink h a)
  | 0x32 => .symlink (memberLink h a)
  | 0x67 | 0x78 | 0x4c | 0x4b => .note
  | _ => if hasBody h path then .file body else .dir false

def modeOf (h : Header) : Option Nat := (octal (h.field 100 8)).map (· % 0o1000)

def damaged : Archive := ⟨[], false⟩

/-- Where the next header starts: bodies fill whole blocks. -/
def roundUp (n : Nat) : Nat := (n + (blockSize - 1)) / blockSize * blockSize

/-- Adds a record about the next member, if there is none of its kind yet. -/
def Ahead.add (a : Ahead) (u : Use) (b : Bytes) : Option Ahead :=
  match u with
  | .longName => if a.longName.isSome then none else some { a with longName := some b }
  | .longLink => if a.longLink.isSome then none else some { a with longLink := some b }
  | .extended => if a.extended.isSome then none else some { a with extended := some b }
  | .member => none

/-- What stands where a header could be: a header with its size, or the end of the archive. -/
inductive Start where
  | over (intact : Bool)
  | header (h : Header) (size : Nat) (r : Reader)

def hasSoundChecksum (h : Header) : Bool :=
  (octal (h.field 148 8)).map (· % 0x100000000) == some (checksum h)

/-- An archive is intact only if it ends where no record waits for its member. -/
def startAt (fuel : Nat) (ahead : Ahead) (next : Nat) (r : Reader) : Start :=
  match take (64 * blockSize) fuel (next - r.position) [] r with
  | .broken _ | .part .. => .over false
  | .all _ r =>
    match take blockSize fuel blockSize [] r with
    | .broken _ => .over false
    | .part b _ => .over (b = [] ∧ ahead = nothingAhead)
    | .all h r =>
      if h.all (· = 0) then .over (ahead = nothingAhead)
      else if !hasSoundChecksum h then .over false
      else match number (Header.field h 124 12) with
        | some size => .header h size r
        | none => .over false

def memberOf (h : Header) (a : Ahead) (body : Body) : Member :=
  ⟨memberPath h a, kindOf h a body, modeOf h⟩

def readsBody (h : Header) (a : Ahead) : Bool :=
  match useOf h with
  | .member => hasBody h (memberPath h a)
  | _ => true

/-- The members from a header on, which starts at `next`. -/
def membersFrom (size : Nat) : Nat → Ahead → Nat → Reader → Archive
  | 0, _, _, _ => damaged
  | fuel + 1, ahead, next, r =>
    match startAt size ahead next r with
    | .over intact => ⟨[], intact⟩
    | .header h plain r =>
      let bodySize := (ahead.extended.bind recordedSize).getD plain
      match readBody size (if readsBody h ahead then bodySize else 0) h r with
      | none => damaged
      | some (got, started) =>
        let after := started.position + roundUp bodySize
        if maxNumber ≤ after then damaged
        else match useOf h, got with
          | .member, .all b r =>
            Archive.cons (memberOf h ahead ⟨b, false⟩) (membersFrom size fuel nothingAhead after r)
          | .member, .part b _ | .member, .broken b => ⟨[memberOf h ahead ⟨b, true⟩], false⟩
          | u, .all b r =>
            match ahead.add u b with
            | some ahead => membersFrom size fuel ahead after r
            | none => damaged
          | _, _ => damaged

/-- Every member takes a block, so the number of bytes bounds the number of members. -/
def read (file : Bytes) : Archive :=
  let s := Gzip.openFile file
  let size := s.runs.foldl (fun n r => n + r.bytes.length) 2
  membersFrom size size nothingAhead 0 ⟨s, 0⟩

end PinnedDeps.Tar
