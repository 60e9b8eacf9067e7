import XmlTemplate.Decimal.Rounded

/-!
# Numbers for readers

A number with a fixed count of decimals: the digits before the point stand in groups of three
with a separator between them. A number whose digits are all zero has no sign.
-/

namespace XmlTemplate

/-- The style of a number for readers. -/
structure NumberFormat where
  decimals : Nat
  point : List Char
  separator : List Char

namespace NumberFormat

/-- Group digits by three from the right. -/
def group (separator : List Char) : List Char → List Char
  | [] => []
  | [c] => [c]
  | c :: rest =>
    if rest.length % 3 = 0 then c :: (separator ++ group separator rest)
    else c :: group separator rest

/-- The nearest multiple of `10 ^ -decimals`, of two equally near ones the one away from zero.
More than 15 decimals are not rounded further. -/
def rounded (decimals : Nat) (f : Float) : Float :=
  let factor := Float.ofNat (Nat.pow 10 (min decimals 15))
  (f.abs * factor).round / factor

/-- Whole part and decimals of a float that is not negative. -/
def parts (decimals : Nat) (f : Float) : List Char × Option (List Char) :=
  match Decimal.Binary.ofFloat? f with
  | some x =>
    match Text.cutAt? (· == '.') (Decimal.fixedPlaces decimals x) with
    | some (whole, fraction) => (whole, some fraction)
    | none => (Decimal.fixedPlaces decimals x, none)
  | none => ((if f.isNaN then "NaN" else "inf").toList, none)

/-- The text of a number in this style. -/
def text (style : NumberFormat) (f : Float) : String :=
  let (whole, fraction) := parts style.decimals (rounded style.decimals f)
  let isNonzero := (whole ++ fraction.getD []).any fun c => c.isDigit && c != '0'
  let sign := if f < 0.0 && isNonzero then ['-'] else []
  let tail := match fraction with
    | some fraction => style.point ++ fraction
    | none => []
  String.ofList (sign ++ group style.separator whole ++ tail)

end NumberFormat

end XmlTemplate
