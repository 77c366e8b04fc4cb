import StreamWire.Number
/-!
# Hexadecimal text — type codes as they are reported

A type code that names no frame kind is reported in hexadecimal. Every
number has a finite expansion in base sixteen, and it is written out
exactly, however large or small the number is.
-/

namespace StreamWire

namespace Number

/-- The digits of `numerator / 2 ^ places` after the point, for a
numerator below `2 ^ places`. -/
def hexPlaces (numerator places : Nat) : List Char :=
  let count := (places + 3) / 4
  let digits := Nat.toDigits 16 (numerator <<< (4 * count - places))
  List.replicate (count - digits.length) '0' ++ digits

/-- The hexadecimal text of a number: sign, digits, and the digits after
the point where there are any. -/
def hexadecimal : Number → String
  | .nan => "NaN"
  | .infinite negative => if negative then "-Infinity" else "Infinity"
  | .negZero => "0"
  | .whole n => (if n < 0 then "-" else "") ++ String.ofList (Nat.toDigits 16 n.natAbs)
  | .fraction numerator places _ =>
    let magnitude := numerator.natAbs
    let unit := 1 <<< (places + 1)
    let after := hexPlaces (magnitude % unit) (places + 1)
    (if numerator < 0 then "-" else "") ++
      String.ofList (Nat.toDigits 16 (magnitude / unit) ++ '.' :: after)

end Number

end StreamWire
