import PinnedDeps.Bytes

/-!
Expanding a deflate stream (RFC 1951). What was expanded before the stream gave out or broke is
kept, together with the places where a further block of input was asked for.
-/
namespace PinnedDeps.Deflate

inductive Fault where
  | starved
  | corrupt
  deriving DecidableEq, Repr

/-- Input is handed out in blocks of this size. -/
def blockSize : Nat := 8192

/-- `used` counts input bytes, `bits` holds what is left of the last one, and `refills` has the
output sizes at which a new block was asked for, the last first. -/
structure Inflater where
  input : Bytes
  used : Nat
  bits : Nat
  bitCount : Nat
  out : ByteArray
  refills : List Nat

abbrev Inflating := ExceptT Fault (StateM Inflater)

def nextByte : Inflating Nat := do
  let s ← get
  match s.input with
  | [] => throw .starved
  | b :: rest =>
    let refilled := s.used % blockSize = 0 ∧ 0 < s.used
    set { s with
      input := rest
      used := s.used + 1
      refills := if refilled then s.out.size :: s.refills else s.refills }
    return b.toNat

def bit : Inflating Nat := do
  let s ← get
  if 0 < s.bitCount then
    set { s with bits := s.bits / 2, bitCount := s.bitCount - 1 }
    return s.bits % 2
  else
    let b ← nextByte
    modify fun s => { s with bits := b / 2, bitCount := 7 }
    return b % 2

/-- A number of that many bits, lowest first. -/
def bits : Nat → Inflating Nat
  | 0 => return 0
  | n + 1 => do
    let low ← bit
    return low + 2 * (← bits n)

def push (b : UInt8) : Inflating Unit := modify fun s => { s with out := s.out.push b }

/-- Repeats what was written `distance` bytes before. Before the start there are zeros. -/
def copyBack (distance : Nat) : Nat → Inflating Unit
  | 0 => return ()
  | n + 1 => do
    let s ← get
    push (if distance ≤ s.out.size then s.out.get! (s.out.size - distance) else 0)
    copyBack distance n

/-- A canonical code: how many words there are of each length from 1 on, and the symbols in the
order of their words. -/
structure Code where
  counts : List Nat
  symbols : Array Nat

def maxLength : Nat := 15

/-- The share of all words of the greatest length that begin with a word of the code. -/
def share (counts : List Nat) : Nat :=
  counts.foldr (fun count rest => count * 0x4000 + rest / 2) 0

/-- The words of each length, as a list of symbols. -/
def wordsByLength (lengths : List Nat) : List (List Nat) :=
  (List.range maxLength).map fun l => (lengths.zipIdx.filter fun p => p.1 == l + 1).map (·.2)

/-- A code must be complete, unless it has no more than one word. -/
def Code.ofLengths (lengths : List Nat) : Inflating Code := do
  let words := wordsByLength lengths
  let counts := words.map List.length
  if share counts == 0x8000 || counts.foldl (· + ·) 0 ≤ 1 then
    return ⟨counts, words.flatten.toArray⟩
  else throw .corrupt

def readWord (symbols : Array Nat) (word first index : Nat) : List Nat → Inflating Nat
  | [] => throw .corrupt
  | count :: longer => do
    let word := word + (← bit)
    if word < first + count then return symbols[index + (word - first)]?.getD 0
    else readWord symbols (word * 2) ((first + count) * 2) (index + count) longer

def Code.read (c : Code) : Inflating Nat := readWord c.symbols 0 0 0 c.counts

/-- Base value and number of extra bits. -/
def lengthCodes : Array (Nat × Nat) := #[
  (3, 0), (4, 0), (5, 0), (6, 0), (7, 0), (8, 0), (9, 0), (10, 0), (11, 1), (13, 1), (15, 1),
  (17, 1), (19, 2), (23, 2), (27, 2), (31, 2), (35, 3), (43, 3), (51, 3), (59, 3), (67, 4),
  (83, 4), (99, 4), (115, 4), (131, 5), (163, 5), (195, 5), (227, 5), (258, 0)]

def distanceCodes : Array (Nat × Nat) := #[
  (1, 0), (2, 0), (3, 0), (4, 0), (5, 1), (7, 1), (9, 2), (13, 2), (17, 3), (25, 3), (33, 4),
  (49, 4), (65, 5), (97, 5), (129, 6), (193, 6), (257, 7), (385, 7), (513, 8), (769, 8),
  (1025, 9), (1537, 9), (2049, 10), (3073, 10), (4097, 11), (6145, 11), (8193, 12), (12289, 12),
  (16385, 13), (24577, 13)]

def readValue (table : Array (Nat × Nat)) (symbol : Nat) : Inflating Nat := do
  match table[symbol]? with
  | some (base, extra) => return base + (← bits extra)
  | none => throw .corrupt

/-- The symbols of a compressed block up to its end. -/
def symbols (literal distance : Code) : Nat → Inflating Unit
  | 0 => throw .corrupt
  | fuel + 1 => do
    let s ← literal.read
    if s < 256 then
      push (UInt8.ofNat s)
      symbols literal distance fuel
    else if s = 256 then return ()
    else
      let length ← readValue lengthCodes (s - 257)
      let back ← readValue distanceCodes (← distance.read)
      copyBack back length
      symbols literal distance fuel

def copyInput : Nat → Inflating Unit
  | 0 => return ()
  | n + 1 => do
    push (UInt8.ofNat (← nextByte))
    copyInput n

def storedBlock : Inflating Unit := do
  modify fun s => { s with bits := 0, bitCount := 0 }
  let size ← bits 16
  let check ← bits 16
  if size + check = 0xffff then copyInput size else throw .corrupt

/-- The order in which the lengths of the code for lengths are sent. -/
def lengthOrder : List Nat := [16, 17, 18, 0, 8, 7, 9, 6, 10, 5, 11, 4, 12, 3, 13, 2, 14, 1, 15]

/-- Reads code lengths, the last first, until there are `total`. -/
def codeLengths (code : Code) (total : Nat) : Nat → List Nat → Inflating (List Nat)
  | 0, _ => throw .corrupt
  | fuel + 1, done =>
    if total < done.length then throw .corrupt
    else if done.length = total then return done.reverse
    else do
      let s ← code.read
      if s < 16 then codeLengths code total fuel (s :: done)
      else if s = 16 then
        match done with
        | [] => throw .corrupt
        | last :: _ => codeLengths code total fuel (List.replicate (3 + (← bits 2)) last ++ done)
      else if s = 17 then codeLengths code total fuel (List.replicate (3 + (← bits 3)) 0 ++ done)
      else codeLengths code total fuel (List.replicate (11 + (← bits 7)) 0 ++ done)

def dynamicCodes (fuel : Nat) : Inflating (Code × Code) := do
  let literals := 257 + (← bits 5)
  let distances := 1 + (← bits 5)
  let sent := 4 + (← bits 4)
  let lengths ← (lengthOrder.take sent).mapM fun at_ => return (at_, ← bits 3)
  let code ← Code.ofLengths ((List.range 19).map fun i => (lengths.lookup i).getD 0)
  let all ← codeLengths code (literals + distances) fuel []
  return (← Code.ofLengths (all.take literals), ← Code.ofLengths (all.drop literals))

def fixedCodes : Inflating (Code × Code) := do
  let literal :=
    List.replicate 144 8 ++ List.replicate 112 9 ++ List.replicate 24 7 ++ List.replicate 8 8
  return (← Code.ofLengths literal, ← Code.ofLengths (List.replicate 32 5))

def block (fuel : Nat) : Inflating Unit := do
  match ← bits 2 with
  | 0 => storedBlock
  | 1 => do
    let (literal, distance) ← fixedCodes
    symbols literal distance fuel
  | 2 => do
    let (literal, distance) ← dynamicCodes fuel
    symbols literal distance fuel
  | _ => throw .corrupt

/-- Blocks up to the one that is marked as the last. Every step takes a bit, so the bits of the
input bound the steps. -/
def blocks (size : Nat) : Nat → Inflating Unit
  | 0 => throw .corrupt
  | fuel + 1 => do
    let last ← bit
    block size
    if last = 1 then return () else blocks size fuel

/-- Expands a stream that starts after `used` bytes of its file. -/
def inflate (input : Bytes) (used : Nat) : Except Fault Unit × Inflater :=
  let size := 8 * input.length + 8
  (blocks size size).run ⟨input, used, 0, 0, .empty, []⟩

end PinnedDeps.Deflate
