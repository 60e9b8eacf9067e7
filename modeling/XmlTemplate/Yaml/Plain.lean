import XmlTemplate.Json.Basic
import XmlTemplate.Number.Numeral
import XmlTemplate.Yaml.Tag

/-!
# What YAML scalars stand for

Plain scalars are null, booleans or numbers if they are written like one, and text otherwise. A
tag of a core type asks for that type.
-/

namespace XmlTemplate.Yaml

/-- Words for null. -/
def isNull (text : String) : Bool := ["~", "null", "Null", "NULL"].contains text

def bool? (text : String) : Option Bool :=
  if ["true", "True", "TRUE"].contains text then some true
  else if ["false", "False", "FALSE"].contains text then some false
  else none

/-- Digits with a needless zero in front are text. -/
def isPaddedNumber (text : List Char) : Bool :=
  match (Numeral.sign? text).2 with
  | '0' :: d :: rest => (d :: rest).all Char.isDigit
  | _ => false

/-- The number that digits of a base spell, with a sign. -/
def inBase? (base : Nat) (negative : Bool) (digits : List Char) : Option Int :=
  let value? (c : Char) : Option Nat := (Text.hexValue? c).filter (· < base)
  if digits.isEmpty then none
  else
    (digits.foldlM (fun n c => (value? c).map (n * base + ·)) 0).map fun (n : Nat) =>
      if negative then -(n : Int) else n

/-- The integer that a plain scalar spells: in base 10, or after `0x`, `0o` or `0b`. -/
def int? (text : List Char) : Option Int :=
  let (sign, digits) := Numeral.sign? text
  let negative := sign == some '-'
  match digits with
  | '0' :: 'x' :: digits => inBase? 16 negative digits
  | '0' :: 'o' :: digits => inBase? 8 negative digits
  | '0' :: 'b' :: digits => inBase? 2 negative digits
  | _ => if isPaddedNumber text then none else inBase? 10 negative digits

/-- The float that a scalar spells. -/
def float? (text : List Char) : Option Float :=
  match String.ofList text with
  | ".inf" | ".Inf" | ".INF" | "+.inf" | "+.Inf" | "+.INF" => some (1.0 / 0.0)
  | "-.inf" | "-.Inf" | "-.INF" => some (-1.0 / 0.0)
  | ".nan" | ".NaN" | ".NAN" => some (0.0 / 0.0)
  | _ =>
    match Numeral.scan? text with
    | some (n, []) => if n.toFloat.isFinite then some n.toFloat else none
    | _ => none

/-- What an integer stands for: nothing if it takes 65 to 128 bits, and `otherwise` beyond. -/
def ofInt? (n : Int) (otherwise : Option Json) : Option Json :=
  if Int64.minValue.toInt ≤ n ∧ n < Number.wordSize then some (.int n)
  else if -(Nat.pow 2 127 : Int) ≤ n ∧ n < Nat.pow 2 128 then none
  else otherwise

/-- What a plain scalar stands for; none if it is an integer that is too large. -/
def plainJson? (text : String) : Option Json :=
  if text == "" || isNull text then some .null
  else match bool? text with
    | some b => some (.bool b)
    | none =>
      let float : Json :=
        match if isPaddedNumber text.toList then none else float? text.toList with
        | some f => .ofFloat f
        | none => .string text
      match int? text.toList with
      | some n => ofInt? n (some float)
      | none => some float

/-- What a scalar stands for. Tags of the application have no meaning. -/
def scalarJson? (tag : Option Tag) (text : String) (plain : Bool) : Option Json :=
  let untagged := if plain then plainJson? text else some (.string text)
  match tag with
  | none => untagged
  | some tag =>
    if tag.isLocal then none
    else if tag == .core "bool" then (bool? text).map .bool
    else if tag == .core "int" then (int? text.toList).bind fun n => ofInt? n none
    else if tag == .core "float" then (float? text.toList).map .ofFloat
    else if tag == .core "null" then if isNull text then some .null else none
    else if tag.isMarked then untagged
    else some (.string text)

end XmlTemplate.Yaml
