import XmlTemplate.Value.Basic
import XmlTemplate.Json.Basic

/-!
# Values and JSON

Reading a JSON tree as a value keeps integers of 64 bits and makes floats of all other
numbers. Writing a value keeps all but host objects, which become their text, and floats that
are not finite, which become null.
-/

namespace XmlTemplate.Value

mutual

/-- The value of a JSON tree. -/
def ofJson : Json → Value
  | .null => null
  | .bool b => bool b
  | .int n =>
    match Number.int64? n with
    | some i => int i
    | none => float (Decimal.ofParts (n < 0) (Text.digits n.natAbs) [] 0)
  | .float f => float f
  | .string s => string s
  | .array items => array (ofItems items)
  | .object fields => object (ofFields fields)

def ofItems : List Json → List Value
  | [] => []
  | item :: rest => ofJson item :: ofItems rest

def ofFields : List (String × Json) → List (String × Value)
  | [] => []
  | (key, field) :: rest => (key, ofJson field) :: ofFields rest

end

mutual

/-- The JSON tree of a value. -/
def toJson : Value → Json
  | null => .null
  | bool b => .bool b
  | int i => .int i.toInt
  | float f => Json.ofFloat f
  | string s => .string s
  | array items => .array (toItems items)
  | object fields => .object (toFields fields)
  | host identity typeName properties shown =>
    .string ((text? (host identity typeName properties shown)).getD "")

def toItems : List Value → List Json
  | [] => []
  | item :: rest => toJson item :: toItems rest

def toFields : List (String × Value) → List (String × Json)
  | [] => []
  | (key, field) :: rest => (key, toJson field) :: toFields rest

end

end XmlTemplate.Value
