import StreamWire.Frame.Decoding
import StreamWire.Proofs.BigEndian
/-!
# Positions — eight bytes in double precision

A position has eight bytes, and a receiver that computes in double
precision puts it together from two words, with a rounding after every
operation. `Number.rounded` is that rounding on natural numbers. It keeps
what a double holds without gaps, and takes nothing above that range back
into it (`Number.rounded_le_maxPosition_iff`), so whether a position is
admitted, and which one it is, can be told from the exact number
(`Encoded.positionField_eq_positionInDoubles`).
-/

namespace StreamWire

namespace Number

/-- The double nearest to a natural number: fifty-three binary places are
kept, and a tie goes to the even neighbour. -/
def rounded (n : Nat) : Nat :=
  let unit := 1 <<< (n.log2 - 52)
  let kept := n / unit
  let rest := n % unit
  if unit < 2 * rest ∨ (2 * rest = unit ∧ kept % 2 = 1) then (kept + 1) * unit else kept * unit

/-- A multiple of the unit in the last place is a double. -/
theorem rounded_of_dvd {n : Nat} (h : 1 <<< (n.log2 - 52) ∣ n) : rounded n = n := by
  have hunit : 0 < 1 <<< (n.log2 - 52) := by
    rw [Nat.one_shiftLeft]
    exact Nat.two_pow_pos _
  have hrest : n % (1 <<< (n.log2 - 52)) = 0 := Nat.mod_eq_zero_of_dvd h
  unfold rounded
  dsimp only
  rw [hrest, if_neg (by omega)]
  exact Nat.div_mul_cancel h

/-- Numbers of fifty-three binary places are doubles. -/
theorem rounded_of_lt {n : Nat} (h : n < 2 ^ 53) : rounded n = n := by
  apply rounded_of_dvd
  have hlog : n.log2 - 52 = 0 := by
    rcases Nat.eq_zero_or_pos n with rfl | hpos
    · rfl
    · have := (Nat.log2_lt (by omega)).2 h
      omega
  rw [hlog]
  exact Nat.one_dvd n

/-- Rounding takes no number of more places below them. -/
theorem le_rounded {n : Nat} (h : 2 ^ 53 ≤ n) : 2 ^ 53 ≤ rounded n := by
  have hne : n ≠ 0 := by omega
  have hlog : 53 ≤ n.log2 := (Nat.le_log2 hne).2 h
  have hself : 2 ^ n.log2 ≤ n := Nat.log2_self_le hne
  have hsplit : 2 ^ n.log2 = 2 ^ 52 * 2 ^ (n.log2 - 52) := by
    rw [← pow_add]
    congr 1
    omega
  -- The places that are kept are at least fifty-three.
  have hkept : 2 ^ 52 ≤ n / 2 ^ (n.log2 - 52) := by
    rw [Nat.le_div_iff_mul_le (Nat.two_pow_pos _), ← hsplit]
    exact hself
  have hunit : 2 ^ 1 ≤ 2 ^ (n.log2 - 52) := Nat.pow_le_pow_right (by decide) (by omega)
  have hdown : 2 ^ 53 ≤ n / 2 ^ (n.log2 - 52) * 2 ^ (n.log2 - 52) :=
    Nat.mul_le_mul hkept hunit
  unfold rounded
  dsimp only
  rw [Nat.one_shiftLeft]
  split
  · exact hdown.trans (Nat.mul_le_mul_right _ (Nat.le_succ _))
  · exact hdown

/-- **What rounds to a position is one already**, and is not changed by
rounding. -/
theorem rounded_le_maxPosition_iff {n : Nat} :
    rounded n ≤ Wire.maxPosition ↔ n ≤ Wire.maxPosition := by
  have hlimit : Wire.maxPosition = 2 ^ 53 - 1 := rfl
  rcases Nat.lt_or_ge n (2 ^ 53) with hlt | hge
  · rw [rounded_of_lt hlt]
  · have := le_rounded hge
    omega

/-- The high word of a position weighs a power of two, so its product is
a double. -/
theorem rounded_highWord {high : Nat} (h : high < 2 ^ 32) :
    rounded (high * 0x100000000) = high * 0x100000000 := by
  apply rounded_of_dvd
  have hlog : (high * 0x100000000).log2 - 52 ≤ 32 := by
    rcases Nat.eq_zero_or_pos high with rfl | hpos
    · decide
    · have := (Nat.log2_lt (n := high * 0x100000000) (k := 64) (by omega)).2 (by omega)
      omega
  have hpower : (0x100000000 : Nat) = 2 ^ 32 := by decide
  rw [Nat.one_shiftLeft, hpower] at *
  exact Dvd.dvd.mul_left (Nat.pow_dvd_pow 2 hlog) high

end Number

namespace Encoded

/-- The position behind the header, put together from two words in double
precision: the product and the sum are rounded, and then judged. -/
def positionInDoubles (frame : Bytes) : Except Fault Nat :=
  let high := BigEndian.decode (slice frame Wire.headerSize 4)
  let low := BigEndian.decode (slice frame (Wire.headerSize + 4) 4)
  let position := Number.rounded (Number.rounded (high * 0x100000000) + low)
  if Wire.maxPosition < position then .error .positionTooLarge else .ok position

/-- Eight bytes are two words. -/
theorem decode_twoWords {frame : Bytes}
    (h : Wire.headerSize + Wire.positionSize ≤ frame.length) :
    BigEndian.decode (slice frame Wire.headerSize Wire.positionSize) =
      BigEndian.decode (slice frame Wire.headerSize 4) * 0x100000000 +
        BigEndian.decode (slice frame (Wire.headerSize + 4) 4) := by
  simp only [Wire.headerSize, Wire.positionSize] at h ⊢
  have hlow : (slice frame (6 + 4) 4).length = 4 := length_slice (by omega)
  have hcut : slice frame 6 8 = slice frame 6 4 ++ slice frame (6 + 4) 4 := by
    rw [slice_eq, slice_eq, slice_eq, ← List.drop_drop, ← List.take_add]
  have hpower : 256 ^ 4 = 0x100000000 := rfl
  rw [hcut, BigEndian.decode_append, hlow, hpower]

/-- **Double precision lets no position through that is too large**, and
returns every other exactly. -/
theorem positionField_eq_positionInDoubles {frame : Bytes}
    (h : Wire.headerSize + Wire.positionSize ≤ frame.length) :
    positionField frame = positionInDoubles frame := by
  have hhigh : BigEndian.decode (slice frame Wire.headerSize 4) < 2 ^ 32 := by
    have hlt := BigEndian.decode_lt (slice frame Wire.headerSize 4)
    have hlength : (slice frame Wire.headerSize 4).length = 4 := by
      apply length_slice
      simp only [Wire.headerSize, Wire.positionSize] at h ⊢
      omega
    rw [hlength] at hlt
    exact hlt
  have hiff := @Number.rounded_le_maxPosition_iff
    (BigEndian.decode (slice frame Wire.headerSize Wire.positionSize))
  unfold positionField positionInDoubles
  dsimp only
  rw [Number.rounded_highWord hhigh, ← decode_twoWords h]
  by_cases hsmall : BigEndian.decode (slice frame Wire.headerSize Wire.positionSize) ≤
      Wire.maxPosition
  · have hkept := Number.rounded_of_lt (Nat.lt_succ_of_le hsmall)
    rw [hkept]
  · rw [if_pos (Nat.not_le.1 hsmall), if_pos (Nat.not_le.1 fun hle => hsmall (hiff.1 hle))]

end Encoded

end StreamWire
