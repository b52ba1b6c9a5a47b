import PinnedDeps.Archive.Deflate

/-!
Reading the first member of a gzip file (RFC 1952). A reader gets bytes in runs: a run ends where
the expanded bytes fill the window or where the next block of input is needed. A run in which the
stream turns out to be broken is lost as a whole.
-/
namespace PinnedDeps.Gzip

def windowSize : Nat := 32768

def crcStep (c : UInt32) : UInt32 := if c &&& 1 = 1 then (c >>> 1) ^^^ 0xedb88320 else c >>> 1

def crcByte (c : UInt32) (b : UInt8) : UInt32 :=
  (List.range 8).foldl (fun c _ => crcStep c) (c ^^^ b.toUInt32)

def crc32 (b : ByteArray) : UInt32 := b.foldl crcByte 0xffffffff ^^^ 0xffffffff

def little (b : Bytes) : Nat := b.foldr (fun x n => x.toNat + 256 * n) 0

/-- `pause` says that the reader gets no more at once, even if it asked for more. -/
structure Run where
  bytes : Bytes
  pause : Bool

/-- What a reader still gets. `sound` says that the file ends as it should after that. -/
structure Stream where
  current : Bytes
  runs : List Run
  sound : Bool

def slice (out : ByteArray) (i j : Nat) : Bytes := (out.extract i j).data.toList

/-- Where the runs of an output end, and which of them pause there. -/
def stops (size : Nat) (refills : List Nat) : List (Nat × Bool) :=
  let full := (List.range ((size - 1) / windowSize)).map fun i => (i + 1) * windowSize
  let all := refills.map (·, true) ++ (full.filter (· ∉ refills)).map (·, false)
  all.mergeSort fun a b => a.1 ≤ b.1

def runsFrom (out : ByteArray) : Nat → List (Nat × Bool) → List Run
  | i, [] => [⟨slice out i out.size, true⟩]
  | i, (j, pause) :: rest =>
    if i < j then ⟨slice out i j, pause⟩ :: runsFrom out j rest else runsFrom out i rest

def streamOf (input : Bytes) (used : Nat) : Stream :=
  let (result, s) := Deflate.inflate input used
  let runs := runsFrom s.out 0 (stops s.out.size s.refills.reverse)
  match result with
  | .error .corrupt => ⟨[], runs.dropLast, false⟩
  | .error .starved => ⟨[], runs, false⟩
  | .ok () =>
    let trailer := s.input.take 8
    let sound := trailer.length = 8 ∧ little (trailer.take 4) = (crc32 s.out).toNat ∧
      little (trailer.drop 4) = s.out.size % 0x100000000
    ⟨[], runs, sound⟩

/-- Longest text that a header may hold. -/
def textLimit : Nat := 65535

/-- Drops a text that ends in a zero byte. -/
def dropText (b : Bytes) : Option Bytes :=
  let text := b.takeWhile (· ≠ 0)
  if textLimit < text.length then none
  else match b.drop text.length with
    | [] => none
    | _ :: rest => some rest

def dropExtra (b : Bytes) : Option Bytes :=
  let size := little (b.take 2)
  if b.length < 2 + size then none else some (b.drop (2 + size))

def flag (flags : UInt8) (i : Nat) : Bool := (flags >>> UInt8.ofNat i) &&& 1 = 1

/-- The rest of a file after its header, if the header is one. -/
def dropHeader (file : Bytes) : Option Bytes := do
  let fixed := file.take 10
  let flags := fixed[3]?.getD 0xff
  guard (fixed.length = 10 ∧ fixed.take 3 = [0x1f, 0x8b, 8] ∧ flags &&& 0xe0 = 0)
  let b := file.drop 10
  let b ← if flag flags 2 then dropExtra b else some b
  let b ← if flag flags 3 then dropText b else some b
  let b ← if flag flags 4 then dropText b else some b
  if flag flags 1 then
    let header := file.take (file.length - b.length)
    guard (2 ≤ b.length ∧ little (b.take 2) = (crc32 ⟨header.toArray⟩).toNat % 65536)
    return b.drop 2
  else return b

def openFile (file : Bytes) : Stream :=
  match dropHeader file with
  | some b => streamOf b (file.length - b.length)
  | none => ⟨[], [], false⟩

/-- Starts runs until as much is there as was asked for, or one of them pauses. -/
def startRuns (sound : Bool) : Nat → List Run → Option (Bytes × Stream)
  | _, [] => if sound then some ([], ⟨[], [], sound⟩) else none
  | want, r :: rest =>
    if want ≤ r.bytes.length ∨ r.pause then
      some (r.bytes.take want, ⟨r.bytes.drop want, rest, sound⟩)
    else (startRuns sound (want - r.bytes.length) rest).map fun x => (r.bytes ++ x.1, x.2)

/-- One read: at most `want` bytes, none only at the end, and no answer where the file is broken. -/
def Stream.read (s : Stream) (want : Nat) : Option (Bytes × Stream) :=
  if s.current ≠ [] then some (s.current.take want, { s with current := s.current.drop want })
  else startRuns s.sound want (s.runs.filter (·.bytes ≠ []))

end PinnedDeps.Gzip
