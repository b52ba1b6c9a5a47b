/-!
Byte strings and the text read out of them. `toText?` accepts exactly well-formed UTF-8. `lossy`
reads every byte string and writes one replacement character for each maximal ill-formed run.
-/
namespace PinnedDeps

abbrev Bytes := List UInt8

namespace Bytes

def ofText (s : String) : Bytes := s.toUTF8.data.toList

def toText? (b : Bytes) : Option String := String.fromUTF8? ⟨b.toArray⟩

def slash : UInt8 := 0x2f
def dot : UInt8 := 0x2e
def newline : UInt8 := 0x0a

def replacement : Char := Char.ofNat 0xFFFD

/-- A character that is only partly read: the bits so far, the bytes still owed, and the range the
next one must lie in. -/
structure Pending where
  bits : Nat
  owed : Nat
  low : UInt8
  high : UInt8

/-- Reads a byte that stands between characters. -/
def lead (b : UInt8) : List Char × Option Pending :=
  if b ≤ 0x7f then ([Char.ofNat b.toNat], none)
  else if 0xc2 ≤ b ∧ b ≤ 0xdf then ([], some ⟨b.toNat % 32, 1, 0x80, 0xbf⟩)
  else if b = 0xe0 then ([], some ⟨0, 2, 0xa0, 0xbf⟩)
  else if b = 0xed then ([], some ⟨13, 2, 0x80, 0x9f⟩)
  else if 0xe1 ≤ b ∧ b ≤ 0xef then ([], some ⟨b.toNat % 16, 2, 0x80, 0xbf⟩)
  else if b = 0xf0 then ([], some ⟨0, 3, 0x90, 0xbf⟩)
  else if 0xf1 ≤ b ∧ b ≤ 0xf3 then ([], some ⟨b.toNat % 8, 3, 0x80, 0xbf⟩)
  else if b = 0xf4 then ([], some ⟨4, 3, 0x80, 0x8f⟩)
  else ([replacement], none)

def Pending.accepts (p : Pending) (b : UInt8) : Bool := p.low ≤ b && b ≤ p.high

/-- Reads a byte that the pending character accepts. -/
def Pending.take (p : Pending) (b : UInt8) : List Char × Option Pending :=
  let bits := p.bits * 64 + b.toNat % 64
  if p.owed ≤ 1 then ([Char.ofNat bits], none) else ([], some ⟨bits, p.owed - 1, 0x80, 0xbf⟩)

def patch : Option Pending → Bytes → List Char
  | none, [] => []
  | some _, [] => [replacement]
  | none, b :: rest => (lead b).1 ++ patch (lead b).2 rest
  | some p, b :: rest =>
    if p.accepts b then (p.take b).1 ++ patch (p.take b).2 rest
    else replacement :: ((lead b).1 ++ patch (lead b).2 rest)

def lossy (b : Bytes) : String := (toText? b).getD (String.ofList (patch none b))

theorem lossy_of_toText? {b : Bytes} {s : String} (h : toText? b = some s) : lossy b = s := by
  simp [lossy, h]

theorem ofText_of_toText? {b : Bytes} {s : String} (h : toText? b = some s) : ofText s = b := by
  unfold toText? String.fromUTF8? at h
  split at h
  · cases h; simp [ofText, String.toUTF8, String.fromUTF8]
  · cases h

@[simp] theorem toText?_ofText (s : String) : toText? (ofText s) = some s := by
  simp [toText?, ofText, String.toUTF8, String.fromUTF8?, String.fromUTF8, s.isValidUTF8]

@[simp] theorem lossy_ofText (s : String) : lossy (ofText s) = s :=
  lossy_of_toText? (toText?_ofText s)

theorem ofText_inj {s t : String} : ofText s = ofText t ↔ s = t := by
  constructor
  · intro h
    have := congrArg toText? h
    simpa using this
  · rintro rfl; rfl

theorem isValidUTF8_of_append {a : ByteArray} {s : String}
    (h : (a ++ s.toByteArray).IsValidUTF8) : a.IsValidUTF8 := by
  let t : String := ⟨a ++ s.toByteArray, h⟩
  have size : t.toByteArray.size = a.size + s.toByteArray.size := ByteArray.size_append
  have le : (⟨a.size⟩ : String.Pos.Raw) ≤ t.rawEndPos :=
    String.Pos.Raw.le_iff.2 (size ▸ Nat.le_add_right _ _ : a.size ≤ t.toByteArray.size)
  have front : t.toByteArray.extract 0 a.size = a := ByteArray.extract_append_eq_left rfl
  have tail : (t.toByteArray.extract a.size t.toByteArray.size).IsValidUTF8 := by
    rw [ByteArray.extract_append_eq_right rfl size]
    exact s.isValidUTF8
  rcases (String.Pos.Raw.isValidUTF8_extract_iff ⟨a.size⟩ _ le String.Pos.Raw.le_refl).1 tail with
    whole | ⟨valid, _⟩
  · have : t.toByteArray = a := by
      rw [← front, show a.size = t.toByteArray.size from congrArg String.Pos.Raw.byteIdx whole]
      exact ByteArray.extract_zero_size.symm
    exact this ▸ h
  · rw [← front]
    exact valid.isValidUTF8_extract_zero

theorem isSome_toText?_iff {b : Bytes} :
    (toText? b).isSome ↔ (ByteArray.mk b.toArray).IsValidUTF8 := by
  unfold toText? String.fromUTF8?
  split <;> simp [*]

/-- Text put behind a byte string does not change whether the whole is text. -/
theorem isSome_toText?_append (b : Bytes) (s : String) :
    (toText? (b ++ ofText s)).isSome ↔ (toText? b).isSome := by
  have split : ByteArray.mk (b ++ ofText s).toArray = ⟨b.toArray⟩ ++ s.toByteArray := by
    ext1
    apply Array.toList_inj.1
    simp [ofText, String.toUTF8]
  rw [isSome_toText?_iff, isSome_toText?_iff, split]
  exact ⟨isValidUTF8_of_append, fun h => h.append s.isValidUTF8⟩

/-- Reading gives the bytes back exactly if they are text. -/
theorem ofText_lossy_iff (b : Bytes) : ofText (lossy b) = b ↔ (toText? b).isSome := by
  constructor
  · intro same
    rw [← same, toText?_ofText]
    rfl
  · intro h
    obtain ⟨s, hs⟩ := Option.isSome_iff_exists.1 h
    rw [lossy_of_toText? hs, ofText_of_toText? hs]

def hasNul (b : Bytes) : Bool := b.contains 0

def hexDigit (n : UInt8) : Char :=
  if n < 10 then Char.ofNat (48 + n.toNat) else Char.ofNat (87 + n.toNat)

def hexLower (b : Bytes) : String :=
  String.ofList (b.flatMap fun x => [hexDigit (x / 16), hexDigit (x % 16)])

end Bytes
end PinnedDeps
