import XmlTemplate.Decimal.Basic

/-!
# Rounding to a number of digits

`Scientific.round` keeps a number of significant digits, `fixedPlaces` a number of digits
after the point. Both round the exact value of the float, ties to even.
-/

namespace XmlTemplate.Decimal

/-- `± coefficient * 10 ^ (exponent - places)`, where the coefficient has `places + 1` digits
unless the value is zero. -/
structure Scientific where
  negative : Bool
  coefficient : Nat
  places : Nat
  exponent : Int
  deriving Repr, DecidableEq

/-- A value rounded to one digit before the point and `places` digits after it. -/
def Scientific.round (places : Nat) (x : Binary) : Scientific :=
  if x.mantissa = 0 then ⟨x.negative, 0, places, 0⟩
  else
    let e := magnitude x.numerator x.denominator
    let (num, den) := inUnits x.numerator x.denominator (e - places)
    let coefficient := roundHalfEven num den
    if coefficient = Nat.pow 10 (places + 1) then ⟨x.negative, Nat.pow 10 places, places, e + 1⟩
    else ⟨x.negative, coefficient, places, e⟩

/-- The digits of the coefficient without zeros at the end, the first digit always kept. -/
def Scientific.significant (x : Scientific) : List Char :=
  match Text.padded (x.places + 1) x.coefficient with
  | [] => []
  | first :: rest => first :: Text.dropWhileEnd (· == '0') rest

/-- A finite value with exactly `places` digits after the point, without its sign. -/
def fixedPlaces (places : Nat) (x : Binary) : List Char :=
  let (num, den) := inUnits x.numerator x.denominator (-places)
  let units := roundHalfEven num den
  let whole := Text.digits (units / Nat.pow 10 places)
  if places = 0 then whole
  else whole ++ '.' :: Text.padded places (units % Nat.pow 10 places)

/-- Decimal digits with a point after the one that counts `10 ^ exponent`; zeros fill the gaps
and no zero ends the fraction if none ends the digits. -/
def positional (digits : List Char) (exponent : Int) : List Char :=
  if exponent < 0 then
    '0' :: '.' :: (List.replicate (-exponent - 1).toNat '0' ++ digits)
  else
    let size := exponent.toNat + 1
    let whole := digits.take size ++ List.replicate (size - digits.length) '0'
    match digits.drop size with
    | [] => whole
    | fraction => whole ++ '.' :: fraction

end XmlTemplate.Decimal
