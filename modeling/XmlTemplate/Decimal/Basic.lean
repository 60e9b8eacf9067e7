import XmlTemplate.Text.Basic

/-!
# Exact values of floats

A finite float is `± mantissa * 2 ^ exponent` with natural `mantissa`. The functions of this
folder work on that exact value in natural arithmetic, so that rounding to a number of
digits is decided once, on the value itself. This file decodes floats, rounds quotients to
the nearest integer with ties to even, and finds the decimal magnitude of a quotient.
-/

namespace XmlTemplate.Decimal

/-- A binary fraction `± mantissa * 2 ^ exponent`. -/
structure Binary where
  negative : Bool
  mantissa : Nat
  exponent : Int
  deriving Repr, DecidableEq

/-- Sign bit of a float, also of zeros and of values that are not finite. -/
def signBit (f : Float) : Bool :=
  f.toBits.toNat / Nat.pow 2 63 == 1

/-- The exact value of a finite float. -/
def Binary.ofFloat? (f : Float) : Option Binary :=
  let bits : Nat := f.toBits.toNat
  let field : Nat := bits / Nat.pow 2 52 % Nat.pow 2 11
  let fraction : Nat := bits % Nat.pow 2 52
  if field = 2047 then none
  else if field = 0 then some ⟨signBit f, fraction, -1074⟩
  else some ⟨signBit f, Nat.pow 2 52 + fraction, field - 1075⟩

/-- Numerator of the absolute value, over `denominator`. -/
def Binary.numerator (x : Binary) : Nat := x.mantissa * Nat.pow 2 x.exponent.toNat

/-- Denominator of the absolute value, a power of two. -/
def Binary.denominator (x : Binary) : Nat := Nat.pow 2 (-x.exponent).toNat

/-- The integer nearest to `num / den`; of two equally near ones, the even one. -/
def roundHalfEven (num den : Nat) : Nat :=
  let quotient := num / den
  let twice := 2 * (num % den)
  if twice < den then quotient
  else if den < twice then quotient + 1
  else if quotient % 2 = 0 then quotient
  else quotient + 1

/-- Number of decimal digits of a number; `1` for zero. -/
def width (n : Nat) : Nat := (Text.digits n).length

/-- The exponent `e` with `10 ^ e ≤ num / den < 10 ^ (e + 1)`, for positive `num` and `den`. -/
def magnitude (num den : Nat) : Int :=
  let e : Int := (width num : Int) - width den
  if den * Nat.pow 10 e.toNat ≤ num * Nat.pow 10 (-e).toNat then e else e - 1

/-- `num / den` in units of `10 ^ place`, as a quotient. -/
def inUnits (num den : Nat) (place : Int) : Nat × Nat :=
  (num * Nat.pow 10 (-place).toNat, den * Nat.pow 10 place.toNat)

end XmlTemplate.Decimal
