import XmlTemplate.Decimal.Basic

/-!
# Shortest decimals

The decimal with the fewest digits that reads back as a given float, and of those the one
nearest to it. All numbers that round to a float form an interval around its value, closed
if its mantissa is even. For each count of digits in turn the two neighbours of the value
on the grid of decimals with that many digits are tested: if any decimal of the grid lies
in the interval, one of these two does.
-/

namespace XmlTemplate.Decimal

/-- Position of a quotient within the interval of numbers that round to the same float. -/
structure Interval where
  low : Nat
  value : Nat
  high : Nat
  denominator : Nat
  closed : Bool

/-- The interval of a positive value, over one denominator. The gap below a power of two is
half the gap above it. -/
def Binary.interval (x : Binary) : Interval :=
  let scale := Nat.pow 2 (x.exponent - 2).toNat
  let below := if x.mantissa = Nat.pow 2 52 ∧ x.exponent > -1074 then 1 else 2
  { low := (4 * x.mantissa - below) * scale
    value := 4 * x.mantissa * scale
    high := (4 * x.mantissa + 2) * scale
    denominator := Nat.pow 2 (2 - x.exponent).toNat
    closed := x.mantissa % 2 = 0 }

/-- The number `n * 10 ^ place` lies in the interval. -/
def Interval.holds (i : Interval) (n : Nat) (place : Int) : Bool :=
  let scale := Nat.pow 10 (-place).toNat
  let point := n * Nat.pow 10 place.toNat * i.denominator
  if i.closed then i.low * scale ≤ point && point ≤ i.high * scale
  else i.low * scale < point && point < i.high * scale

/-- The neighbour of the value on the grid of `10 ^ place` that lies in the interval: the nearer
one if both do, the even one if they are equally near. -/
def Interval.onGrid? (i : Interval) (place : Int) : Option Nat :=
  let (num, den) := inUnits i.value i.denominator place
  let lower := num / den
  match i.holds lower place, i.holds (lower + 1) place with
  | true, true => some (roundHalfEven num den)
  | true, false => some lower
  | false, true => some (lower + 1)
  | false, false => none

/-- Coefficient and place `(n, p)` of the shortest decimal `n * 10 ^ p` that reads back as the
positive value `x`. Seventeen digits always do. -/
def shortest (x : Binary) : Nat × Int :=
  let i := x.interval
  let e := magnitude x.numerator x.denominator
  let found := (List.range 17).findSome? fun (count : Nat) =>
    let place : Int := e - (count : Int)
    (i.onGrid? place).map fun n => (n, place)
  found.getD (0, 0)

/-- The digits of the shortest decimal, without zeros at the end, and the exponent of the first
of them; `"0"` and `0` for zero. -/
def shortestDigits (x : Binary) : List Char × Int :=
  if x.mantissa = 0 then (['0'], 0)
  else
    let (n, place) := shortest x
    let text := Text.digits n
    match text with
    | [] => (['0'], 0)
    | first :: rest => (first :: Text.dropWhileEnd (· == '0') rest, place + rest.length)

end XmlTemplate.Decimal
