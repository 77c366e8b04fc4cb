import Mathlib.Algebra.Order.Ring.Nat
import Mathlib.Data.List.Induction
import StreamWire.Bytes
/-!
# Big-endian fields — what is written is what is read

`BigEndian.encode` and `BigEndian.decode` undo each other at a fixed
width: a number comes back modulo what the width holds
(`decode_encode`), and every byte string is the encoding of the number
it spells (`encode_decode`). The slices of a frame that is known as a
concatenation are its pieces.
-/

namespace StreamWire

namespace BigEndian

theorem decode_append_byte (bytes : Bytes) (byte : UInt8) :
    decode (bytes ++ [byte]) = decode bytes * 256 + byte.toNat := by
  simp [decode, List.foldl_append]

/-- The bytes that come first count for more, by the width of the
rest. -/
theorem decode_append (first rest : Bytes) :
    decode (first ++ rest) = decode first * 256 ^ rest.length + decode rest := by
  induction rest using List.reverseRecOn with
  | nil => simp [decode]
  | append_singleton rest byte ih =>
    have hwidth : 256 ^ (rest ++ [byte]).length = 256 ^ rest.length * 256 := by
      rw [List.length_append, List.length_singleton, pow_succ]
    rw [← List.append_assoc, decode_append_byte, decode_append_byte, ih, hwidth]
    rw [add_mul, mul_assoc, add_assoc]

theorem decode_cons (byte : UInt8) (rest : Bytes) :
    decode (byte :: rest) = byte.toNat * 256 ^ rest.length + decode rest := by
  have := decode_append [byte] rest
  simpa [decode] using this

/-- A byte string spells a number that fits its width. -/
theorem decode_lt (bytes : Bytes) : decode bytes < 256 ^ bytes.length := by
  induction bytes using List.reverseRecOn with
  | nil => simp [decode]
  | append_singleton bytes byte ih =>
    have hbyte := byte.toNat_lt
    rw [decode_append_byte, List.length_append, List.length_singleton, pow_succ]
    omega

/-- **Reading undoes writing**, up to what the width holds. -/
theorem decode_encode (width n : Nat) : decode (encode width n) = n % 256 ^ width := by
  induction width generalizing n with
  | zero => simp [encode, decode, Nat.mod_one]
  | succ width ih =>
    have hbyte : (UInt8.ofNat n).toNat = n % 256 := by simp
    rw [encode, decode_append_byte, ih, hbyte, pow_succ, mul_comm (256 ^ width) 256, Nat.mod_mul]
    omega

theorem decode_encode_of_lt {width n : Nat} (h : n < 256 ^ width) :
    decode (encode width n) = n := by
  rw [decode_encode, Nat.mod_eq_of_lt h]

/-- **Writing undoes reading**: every byte string is the encoding of the
number it spells. -/
theorem encode_decode (bytes : Bytes) : encode bytes.length (decode bytes) = bytes := by
  induction bytes using List.reverseRecOn with
  | nil => rfl
  | append_singleton bytes byte ih =>
    have hbyte := byte.toNat_lt
    have hhigh : (decode bytes * 256 + byte.toNat) / 256 = decode bytes := by omega
    have hlow : UInt8.ofNat (decode bytes * 256 + byte.toNat) = byte := by
      apply UInt8.toNat_inj.1
      rw [UInt8.toNat_ofNat']
      omega
    rw [decode_append_byte, List.length_append, List.length_singleton, encode, hhigh, hlow, ih]

theorem encode_decode_of_length {bytes : Bytes} {width : Nat} (h : bytes.length = width) :
    encode width (decode bytes) = bytes := by
  rw [← h, encode_decode]

/-- What does not fit is dropped. -/
theorem encode_mod (width n : Nat) : encode width (n % 256 ^ width) = encode width n := by
  rw [← decode_encode, encode_decode_of_length (length_encode width n)]

/-- **A number may be written in two parts**, of which the first holds what
does not fit the second. -/
theorem encode_add (first rest n : Nat) :
    encode (first + rest) n = encode first (n / 256 ^ rest) ++ encode rest (n % 256 ^ rest) := by
  rw [encode_mod]
  induction rest generalizing n with
  | zero => simp [encode]
  | succ rest ih =>
    have hhigh : n / 256 / 256 ^ rest = n / 256 ^ (rest + 1) := by
      rw [Nat.div_div_eq_div_mul, pow_succ, mul_comm]
    rw [← Nat.add_assoc, encode, encode, ih, hhigh, List.append_assoc]

end BigEndian

/-! ## Slices of a concatenation -/

/-- The piece that lies between two others. -/
theorem slice_append {before piece after : Bytes} {offset length : Nat}
    (hbefore : before.length = offset) (hpiece : piece.length = length) :
    slice (before ++ (piece ++ after)) offset length = piece := by
  rw [slice_eq, List.drop_left' hbefore, List.take_left' hpiece]

/-- The piece that nothing follows. -/
theorem slice_append_last {before piece : Bytes} {offset length : Nat}
    (hbefore : before.length = offset) (hpiece : piece.length = length) :
    slice (before ++ piece) offset length = piece := by
  rw [slice_eq, List.drop_left' hbefore, ← hpiece, List.take_length]

/-- A slice of what is there is as long as was asked for. -/
theorem length_slice {bytes : Bytes} {offset length : Nat} (h : offset + length ≤ bytes.length) :
    (slice bytes offset length).length = length := by
  rw [slice_eq, List.length_take, List.length_drop]
  omega

/-- A cut behind a slice leaves the slice as it is. -/
theorem slice_take {bytes : Bytes} {offset length n : Nat} (h : offset + length ≤ n) :
    slice (bytes.take n) offset length = slice bytes offset length := by
  rw [slice_eq, slice_eq, List.drop_take, List.take_take, Nat.min_eq_left (by omega)]

end StreamWire
