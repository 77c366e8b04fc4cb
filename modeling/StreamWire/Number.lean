/-!
# Numbers — the values a numeric field may be given

A caller hands over a double-precision number, and most of those are no
stream id or request count at all: fractions, negatives, infinities and
NaN must be told apart before anything is written. `Number` holds such a
value exactly, as data: a whole number, or an odd numerator over a power
of two. The form is canonical, so equality of values is equality of
terms, with two exceptions kept on purpose: `negZero` differs from
`whole 0`, and NaN equals itself. `Number.ofBits` reads the 64-bit
format, `toNat?` says which values are natural numbers, and `word` is
the 32-bit word a flag field is taken from.
-/

namespace StreamWire

/-- A double-precision value. A fraction is `numerator / 2 ^ (places + 1)`
in lowest terms. -/
inductive Number where
  | nan
  | infinite (negative : Bool)
  | negZero
  | whole (n : Int)
  | fraction (numerator : Int) (places : Nat) (odd : numerator % 2 = 1)
deriving DecidableEq, Repr

namespace Number

/-- A natural number as a value. -/
def ofNat (n : Nat) : Number := .whole n

instance : Coe Nat Number := ⟨ofNat⟩

/-- Positive infinity, above every other value. -/
def infinity : Number := .infinite false

/-! ## The 64-bit format -/

/-- A magnitude and its sign. -/
def signed (negative : Bool) (magnitude : Nat) : Int :=
  if negative then -(magnitude : Int) else magnitude

theorem signed_emod_two {negative : Bool} {magnitude : Nat} (h : magnitude % 2 = 1) :
    signed negative magnitude % 2 = 1 := by
  unfold signed
  split <;> omega

/-- The value `± magnitude / 2 ^ places`, brought to lowest terms. -/
def ofRatio (negative : Bool) : (magnitude places : Nat) → Number
  | magnitude, 0 =>
    if magnitude = 0 ∧ negative then .negZero else .whole (signed negative magnitude)
  | magnitude, places + 1 =>
    if h : magnitude % 2 = 1 then
      .fraction (signed negative magnitude) places (signed_emod_two h)
    else
      ofRatio negative (magnitude / 2) places

/-- The value of a 64-bit pattern: one sign bit, eleven exponent bits,
and fifty-two bits of significand with a leading one unless the exponent
is zero. -/
def ofBits (bits : UInt64) : Number :=
  let pattern := bits.toNat
  let negative := decide (pattern >>> 63 = 1)
  let exponent := (pattern >>> 52) % 0x800
  let tail := pattern % 0x10000000000000
  if exponent = 0x7FF then
    if tail = 0 then .infinite negative else .nan
  else
    let significand := if exponent = 0 then tail else 0x10000000000000 + tail
    let scale := max exponent 1
    if 1075 ≤ scale then ofRatio negative (significand <<< (scale - 1075)) 0
    else ofRatio negative significand (1075 - scale)

/-! ## Reading a value -/

/-- Both zeros, and nothing else. -/
def isZero : Number → Bool
  | .negZero => true
  | .whole n => n == 0
  | _ => false

/-- The natural number a value denotes, if it denotes one; negative zero
denotes zero. -/
def toNat? : Number → Option Nat
  | .negZero => some 0
  | .whole n => if 0 ≤ n then some n.toNat else none
  | _ => none

/-- The natural number a value denotes, if it is at most `limit`. -/
def toNatUpTo? (limit : Nat) (x : Number) : Option Nat :=
  x.toNat?.filter (· ≤ limit)

/-- Whether a value lies strictly below a natural number. NaN lies below
nothing. -/
def isBelow (x : Number) (n : Nat) : Bool :=
  match x with
  | .nan => false
  | .infinite negative => negative
  | .negZero => decide (0 < n)
  | .whole i => decide (i < n)
  | .fraction numerator places _ => decide (numerator < (n <<< (places + 1) : Nat))

/-- The value under which an entry is filed: the two zeros are one key,
and NaN is a key like any other. -/
def key : Number → Number
  | .negZero => .whole 0
  | x => x

/-! ## Flag words -/

/-- The 32-bit word of a value: its integer part modulo `2 ^ 32`, and
zero where there is none. -/
def word : Number → BitVec 32
  | .whole n => BitVec.ofInt 32 n
  | .fraction numerator places _ => BitVec.ofInt 32 (numerator.tdiv (1 <<< (places + 1) : Nat))
  | _ => 0

/-- A 32-bit word as a value, read as a signed number. -/
def ofWord (w : BitVec 32) : Number := .whole w.toInt

@[simp] theorem toNat?_ofNat (n : Nat) : (ofNat n).toNat? = some n := by
  simp [ofNat, toNat?]

@[simp] theorem word_ofWord (w : BitVec 32) : (ofWord w).word = w := by
  simp [ofWord, word]

@[simp] theorem key_key (x : Number) : x.key.key = x.key := by
  cases x <;> rfl

end Number

end StreamWire
