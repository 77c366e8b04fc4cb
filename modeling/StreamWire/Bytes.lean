/-!
# Bytes — byte strings, slices and big-endian fields

Everything on the wire is a `Bytes`, a list of octets. A fixed-width
field is the big-endian form of a natural number, written by
`BigEndian.encode` and read by `BigEndian.decode`. A field or block is
found in a frame by `slice`.
-/

namespace StreamWire

/-- A string of octets, first byte first. -/
abbrev Bytes := List UInt8

/-! ## Fixed-width fields -/

namespace BigEndian

/-- The `width` bytes of `n`, most significant first; what does not fit
is dropped. -/
def encode : (width : Nat) → (n : Nat) → Bytes
  | 0, _ => []
  | width + 1, n => encode width (n / 256) ++ [UInt8.ofNat n]

/-- The number a byte string spells, most significant byte first. -/
def decode (bytes : Bytes) : Nat :=
  bytes.foldl (fun value byte => value * 256 + byte.toNat) 0

@[simp] theorem length_encode (width n : Nat) : (encode width n).length = width := by
  induction width generalizing n with
  | zero => rfl
  | succ width ih => simp [encode, ih]

end BigEndian

/-! ## Stretches

Frames may be long, so what is wanted whole is not taken apart: `front`
hands on a byte string that is short enough, and `followedBy` one that
nothing follows. Neither differs from the list operation it stands for. -/

/-- The first `n` bytes, as far as they reach. -/
def front (bytes : Bytes) (n : Nat) : Bytes :=
  if (bytes.drop n).isEmpty then bytes else bytes.take n

@[simp] theorem front_eq_take (bytes : Bytes) (n : Nat) : front bytes n = bytes.take n := by
  unfold front
  split
  · next h =>
    have := List.length_eq_zero_iff.2 (List.isEmpty_iff.1 h)
    rw [List.length_drop] at this
    exact (List.take_of_length_le (by omega)).symm
  · rfl

/-- One byte string and then another. -/
def followedBy (first second : Bytes) : Bytes :=
  if second.isEmpty then first else first ++ second

@[simp] theorem followedBy_eq_append (first second : Bytes) :
    followedBy first second = first ++ second := by
  cases second <;> simp [followedBy]

/-- The stretch of `length` bytes that starts at `offset`, as far as the
bytes reach. -/
def slice (bytes : Bytes) (offset length : Nat) : Bytes :=
  front (bytes.drop offset) length

/-- A slice is what is left of a drop and a take. -/
theorem slice_eq (bytes : Bytes) (offset length : Nat) :
    slice bytes offset length = (bytes.drop offset).take length :=
  front_eq_take _ _

end StreamWire
