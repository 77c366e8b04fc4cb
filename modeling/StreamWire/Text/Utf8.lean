import StreamWire.Bytes
/-!
# UTF-8 — error messages as bytes and back

An error message travels as UTF-8. Encoding is exact. Decoding never
fails: each **maximal subpart** of an ill-formed sequence, that is the
longest stretch that could still have become a character, or a single
byte where none could start, is read as one replacement character. A
byte order mark is a character like any other.
-/

namespace StreamWire

namespace Utf8

/-- The bytes of a text. -/
def encode (text : String) : Bytes :=
  text.toList.flatMap String.utf8EncodeChar

/-- The character that stands for what cannot be read. -/
def replacement : Char := '\uFFFD'

/-! ## Decoding -/

/-- What a first byte announces: its own bits of the character, how many
bytes are owed, and the range the next of them must lie in. -/
structure Lead where
  bits : Nat
  owed : Nat
  low : UInt8
  high : UInt8
deriving DecidableEq, Repr

/-- The first bytes of well-formed sequences. The ranges of the second
byte shut out overlong forms, surrogates, and what lies beyond the last
character. -/
def lead? (byte : UInt8) : Option Lead :=
  let b := byte.toNat
  if b ≤ 0x7F then some ⟨b, 0, 0x80, 0xBF⟩
  else if b < 0xC2 then none
  else if b ≤ 0xDF then some ⟨b - 0xC0, 1, 0x80, 0xBF⟩
  else if b = 0xE0 then some ⟨0, 2, 0xA0, 0xBF⟩
  else if b = 0xED then some ⟨0xD, 2, 0x80, 0x9F⟩
  else if b ≤ 0xEF then some ⟨b - 0xE0, 2, 0x80, 0xBF⟩
  else if b = 0xF0 then some ⟨0, 3, 0x90, 0xBF⟩
  else if b ≤ 0xF3 then some ⟨b - 0xF0, 3, 0x80, 0xBF⟩
  else if b = 0xF4 then some ⟨4, 3, 0x80, 0x8F⟩
  else none

/-- Collects the owed bytes of a character from what follows. The first
byte out of range ends the attempt and is left in place. -/
def collect (bits : Nat) : (owed : Nat) → (low high : UInt8) → Bytes → Char × Bytes
  | 0, _, _, rest => (Char.ofNat bits, rest)
  | _ + 1, _, _, [] => (replacement, [])
  | owed + 1, low, high, byte :: rest =>
    if low ≤ byte ∧ byte ≤ high then
      collect (bits * 64 + byte.toNat % 64) owed 0x80 0xBF rest
    else
      (replacement, byte :: rest)

/-- Collecting leaves no more than it was given. -/
theorem length_collect_le (bits owed : Nat) (low high : UInt8) (bytes : Bytes) :
    (collect bits owed low high bytes).2.length ≤ bytes.length := by
  induction owed generalizing bits low high bytes with
  | zero => simp [collect]
  | succ owed ih =>
    cases bytes with
    | nil => simp [collect]
    | cons byte rest =>
      simp only [collect]
      split
      · exact Nat.le_trans (ih _ _ _ _) (by simp)
      · exact Nat.le_refl _

/-- The first character of a non-empty byte string, and the bytes after
it. -/
def decodeChar (byte : UInt8) (rest : Bytes) : Char × Bytes :=
  match lead? byte with
  | none => (replacement, rest)
  | some lead => collect lead.bits lead.owed lead.low lead.high rest

theorem length_decodeChar_le (byte : UInt8) (rest : Bytes) :
    (decodeChar byte rest).2.length ≤ rest.length := by
  unfold decodeChar
  split
  · exact Nat.le_refl _
  · exact length_collect_le _ _ _ _ _

/-- The characters of a byte string. -/
def decodeChars : Bytes → List Char
  | [] => []
  | byte :: rest => (decodeChar byte rest).1 :: decodeChars (decodeChar byte rest).2
termination_by bytes => bytes.length
decreasing_by
  have := length_decodeChar_le byte rest
  simp only [List.length_cons]
  omega

/-- The text of a byte string, with a replacement character for each
maximal ill-formed subpart. -/
def decode (bytes : Bytes) : String :=
  String.ofList (decodeChars bytes)

end Utf8

end StreamWire
