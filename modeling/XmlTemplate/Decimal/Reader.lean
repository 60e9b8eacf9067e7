import XmlTemplate.Decimal.Basic

/-!
# Reading decimals

The float nearest to a decimal. Decimals too large for a float become infinite and those too
small become zero, without computing their powers of ten.
-/

namespace XmlTemplate.Decimal

/-- The float nearest to `coefficient * 10 ^ exponent`. -/
def toFloat (coefficient : Nat) (exponent : Int) : Float :=
  let size : Int := width coefficient
  if coefficient = 0 ∨ size + exponent < -400 then 0.0
  else if 400 < size + exponent then 1.0 / 0.0
  else Float.ofScientific coefficient (exponent < 0) exponent.natAbs

/-- The float nearest to `± whole.fraction * 10 ^ exponent`, where both parts are digits. -/
def ofParts (negative : Bool) (whole fraction : List Char) (exponent : Int) : Float :=
  let f := toFloat (Text.ofDigits (whole ++ fraction)) (exponent - fraction.length)
  if negative then -f else f

end XmlTemplate.Decimal
