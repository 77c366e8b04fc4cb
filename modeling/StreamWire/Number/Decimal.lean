import StreamWire.Number
import StreamWire.Wire
/-!
# Decimal text — the fewest digits that read back

A number in a message is written with the fewest significant decimal
digits that still single out the double-precision value, and of those the
digits nearest to it. `shortest` works in exact arithmetic: every value
`N / 2 ^ k` is the decimal fraction `N · 5 ^ k / 10 ^ k`, so the digit
grids to try are truncations of that one natural number, and the reals
that round to the value form an interval around it whose ends belong to
it when the significand is even. `Decimal.text` then places the point:
positionally from a millionth up to twenty-one places, with an exponent
outside.
-/

namespace StreamWire

/-- A positive decimal number `0.d₁d₂… · 10 ^ point`. -/
structure Decimal where
  digits : List Char
  point : Int
deriving DecidableEq, Repr

namespace Decimal

/-- Without the zeros at the end. -/
def trimmed (d : Decimal) : Decimal :=
  { d with digits := (d.digits.reverse.dropWhile (· == '0')).reverse }

/-- The decimal number `n · 10 ^ exponent`, trimmed. -/
def ofScaled (n : Nat) (exponent : Int) : Decimal :=
  let digits := Nat.toDigits 10 n
  trimmed ⟨digits, digits.length + exponent⟩

/-! ## The shortest digits -/

/-- The values that round to one double, around its exact decimal
expansion `expansion / 10 ^ k`, all scaled by a power of two so that the
two half-gaps are natural numbers. -/
structure Rounding where
  expansion : Nat
  scale : Nat
  below : Nat
  above : Nat
  closed : Bool
deriving DecidableEq, Repr

/-- The rounding interval of `magnitude / 2 ^ places` among numbers of
fifty-three significant bits whose last bit is at least `2 ^ -1074`. At a
power of two the gap below is half the gap above. -/
def Rounding.of (magnitude places : Nat) : Rounding :=
  let length : Int := magnitude.log2 - places
  let last : Int := max (length - 52) (-1074)
  let shift := (2 - last).toNat
  let scale := 1 <<< shift
  let quarter := Nat.pow 10 places <<< (last + shift - 2).toNat
  let significand := (magnitude <<< (-last).toNat) >>> (places + last.toNat)
  let narrow := decide (significand = 0x10000000000000 ∧ -1074 < last)
  { expansion := magnitude * Nat.pow 5 places
    scale
    below := if narrow then quarter else 2 * quarter
    above := 2 * quarter
    closed := decide (significand % 2 = 0) }

/-- Whether the decimal number `candidate`, in units of the expansion's
last place, rounds to the value. -/
def Rounding.admits (r : Rounding) (candidate : Nat) : Bool :=
  let centre := r.expansion * r.scale
  let x := candidate * r.scale
  if r.closed then decide (centre ≤ x + r.below ∧ x ≤ centre + r.above)
  else decide (centre < x + r.below ∧ x < centre + r.above)

/-- The multiple of `unit` that rounds to the value and is nearest to it,
if there is one; of two equally near, the one with an even last digit. -/
def Rounding.onGrid? (r : Rounding) (unit : Nat) : Option Nat :=
  let low := r.expansion / unit
  let high := low + 1
  match r.admits (low * unit), r.admits (high * unit) with
  | true, true =>
    let toLow := r.expansion - low * unit
    let toHigh := high * unit - r.expansion
    if toLow < toHigh ∨ (toLow = toHigh ∧ low % 2 = 0) then some low else some high
  | true, false => some low
  | false, true => some high
  | false, false => none

/-- The shortest decimal number that reads back as
`magnitude / 2 ^ places`. The grids are tried from one digit upward; the
last of them holds the value itself. -/
def shortest (magnitude places : Nat) : Decimal :=
  let r := Rounding.of magnitude places
  let count := (Nat.toDigits 10 r.expansion).length
  let hit? := (List.range count).reverse.findSome? fun (dropped : Nat) =>
    (r.onGrid? (Nat.pow 10 dropped)).map fun n => ofScaled n ((dropped : Int) - places)
  hit?.getD (ofScaled r.expansion (-places))

/-! ## Placing the point -/

/-- The text of a decimal number. It is written without an exponent if
the first digit stands at most twenty-one places before the point or six
places after it. -/
def text (d : Decimal) : String :=
  let count : Int := d.digits.length
  if count ≤ d.point ∧ d.point ≤ 21 then
    String.ofList (d.digits ++ List.replicate (d.point - count).toNat '0')
  else if 0 < d.point ∧ d.point ≤ 21 then
    String.ofList (d.digits.take d.point.toNat ++ '.' :: d.digits.drop d.point.toNat)
  else if -6 < d.point ∧ d.point ≤ 0 then
    String.ofList ('0' :: '.' :: (List.replicate (-d.point).toNat '0' ++ d.digits))
  else
    let exponent := d.point - 1
    let sign := if exponent < 0 then '-' else '+'
    let tail := if d.digits.length ≤ 1 then [] else '.' :: d.digits.drop 1
    String.ofList (d.digits.take 1 ++ tail ++ 'e' :: sign :: Nat.toDigits 10 exponent.natAbs)

end Decimal

namespace Number

/-- The decimal text of a magnitude. A whole number below `2 ^ 53` has
neighbours a unit away or less, so it is written out in full. -/
def decimalMagnitude (magnitude places : Nat) : String :=
  if places = 0 ∧ magnitude ≤ Wire.maxPosition then toString magnitude
  else (Decimal.shortest magnitude places).text

/-- The decimal text of a number. Negative zero is written without its
sign. -/
def decimal : Number → String
  | .nan => "NaN"
  | .infinite negative => if negative then "-Infinity" else "Infinity"
  | .negZero => "0"
  | .whole n => (if n < 0 then "-" else "") ++ decimalMagnitude n.natAbs 0
  | .fraction numerator places _ =>
    (if numerator < 0 then "-" else "") ++ decimalMagnitude numerator.natAbs (places + 1)

/-- A natural number without a gap below it is written out in full. -/
theorem decimal_ofNat {n : Nat} (h : n ≤ Wire.maxPosition) : (ofNat n).decimal = toString n := by
  have h0 : ¬ (n : Int) < 0 := by omega
  simp only [ofNat, decimal, decimalMagnitude, if_neg h0, Int.natAbs_natCast, true_and, if_pos h]
  exact String.empty_append

end Number

end StreamWire
