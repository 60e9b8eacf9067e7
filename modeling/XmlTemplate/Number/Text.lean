import XmlTemplate.Decimal.Rounded
import XmlTemplate.Number.Basic

/-!
# Text of numbers

Floats print with 14 significant digits and no zeros at the end. Exponents from -4 to 13 are
written out with a point, all others as in `1.0E+20`.
-/

namespace XmlTemplate.Number

/-- Decimal digits of an integer after a minus sign if it is negative. -/
def intText (i : Int) : List Char :=
  if i < 0 then '-' :: Text.digits i.natAbs else Text.digits i.natAbs

/-- A value already rounded to its significant digits. -/
def scientificText (x : Decimal.Scientific) : List Char :=
  let digits := x.significant
  let sign := if x.negative then ['-'] else []
  if -4 ≤ x.exponent ∧ x.exponent < 14 then sign ++ Decimal.positional digits x.exponent
  else
    let mantissa := match digits with
      | [] => []
      | first :: [] => [first, '.', '0']
      | first :: rest => first :: '.' :: rest
    let mark := if x.exponent < 0 then '-' else '+'
    sign ++ mantissa ++ 'E' :: mark :: Text.digits x.exponent.natAbs

/-- The text of a float: `NAN`, `INF`, `-INF`, or 14 significant digits. -/
def floatText (f : Float) : String :=
  match Decimal.Binary.ofFloat? f with
  | some x => String.ofList (scientificText (Decimal.Scientific.round 13 x))
  | none => if f.isNaN then "NAN" else if f > 0.0 then "INF" else "-INF"

/-- The text of a number as templates print it. -/
def text : Number → String
  | int i => String.ofList (intText i.toInt)
  | float f => floatText f

end XmlTemplate.Number
