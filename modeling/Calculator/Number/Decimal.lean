import Calculator.Number.Nearest

namespace Calculator.Number

/-- The number `digits * 10 ^ exponent`. -/
structure Decimal where
  digits : Nat
  exponent : Int
deriving DecidableEq, Repr

namespace Decimal

/-- The float nearest to a decimal number. No float reaches 10^309, and a number below half of the
smallest float rounds to zero; both are settled without forming powers of ten, so the cost does
not grow with the exponent. -/
def toFloat (d : Decimal) : Float :=
  if d.digits = 0 then 0
  else if 309 ≤ d.exponent then infinity
  else if d.digits.log2 + 1 + (lowestExponent + 1) ≤ 3 * (-d.exponent).toNat then 0
  else nearest (d.digits * Nat.pow 10 d.exponent.toNat) (Nat.pow 10 (-d.exponent).toNat)

/-- The digits of a decimal number with every zero written and no exponent. A point stands only
before a fraction, and at least one digit stands before the point. -/
def chars (d : Decimal) : List Char :=
  let digits := Nat.toDigits 10 d.digits
  if 0 ≤ d.exponent then digits ++ List.replicate d.exponent.toNat '0'
  else
    let places := (-d.exponent).toNat
    let padded := digits.leftpad (places + 1) '0'
    let whole := padded.length - places
    padded.take whole ++ '.' :: padded.drop whole

end Decimal

end Calculator.Number
