import XmlTemplate.Table
import XmlTemplate.Number.Numeral
import XmlTemplate.Number.Text

/-!
# Values

What expressions evaluate to. Conversions are loose: every value has a truth value and a
number, and all but collections with content have a text. A host object belongs to the
embedding program and is known by its identity; templates see its properties and its text.
-/

namespace XmlTemplate

/-- A value of template data. The fields of an object keep their order. -/
inductive Value where
  | null
  | bool (value : Bool)
  | int (value : Int64)
  | float (value : Float)
  | string (value : String)
  | array (items : List Value)
  | object (fields : List (String × Value))
  | host (identity : Nat) (typeName : String) (properties : List (String × Value))
      (shown : Option String)
  deriving Inhabited

namespace Value

/-- A number as a value. -/
def ofNumber : Number → Value
  | .int i => int i
  | .float f => float f

/-- A count as a value. -/
def ofNat (n : Nat) : Value := int (Int64.ofNat n)

/-- Null, false, zero, `""`, `"0"` and empty collections are false. -/
def isTruthy : Value → Bool
  | null => false
  | bool b => b
  | int i => i != 0
  | float f => f != 0.0
  | string s => s != "" && s != "0"
  | array items => !items.isEmpty
  | object fields => !fields.isEmpty
  | host .. => true

/-- Numbers, and strings that read as one. -/
def isNumeric : Value → Bool
  | int _ | float _ => true
  | string s => (Number.parse? s).isSome
  | _ => false

def isString : Value → Bool
  | string _ => true
  | _ => false

def isCollection : Value → Bool
  | array _ | object _ => true
  | _ => false

/-- The number that a value counts as in arithmetic. -/
def toNumber : Value → Number
  | null => .int 0
  | bool b => .int (if b then 1 else 0)
  | int i => .int i
  | float f => .float f
  | string s => Number.leading s
  | array items => .int (if items.isEmpty then 0 else 1)
  | object fields => .int (if fields.isEmpty then 0 else 1)
  | host .. => .int 1

/-- The text of a value. Collections with content have none. -/
def text? : Value → Option String
  | null => some ""
  | bool b => some (if b then "1" else "")
  | int i => some (Number.int i).text
  | float f => some (Number.floatText f)
  | string s => some s
  | array items => if items.isEmpty then some "" else none
  | object fields => if fields.isEmpty then some "" else none
  | host _ typeName _ shown => some (shown.getD ("### Object of class: " ++ typeName ++ " ###"))

/-- A position in an array as written: digits after an optional plus sign. -/
def index? (key : String) : Option Nat :=
  let digits := match key.toList with
    | '+' :: digits => digits
    | digits => digits
  if !digits.isEmpty && digits.all Char.isDigit then some (Text.ofDigits digits) else none

/-- The part of a value under a key; null when there is none. -/
def get (key : String) : Value → Value
  | object fields => (Table.get? key fields).getD null
  | array items => ((index? key).bind (items[·]?)).getD null
  | host _ _ properties _ => (Table.get? key properties).getD null
  | _ => null

/-- Number of elements; everything that is neither null nor a collection counts as one. -/
def count : Value → Nat
  | null => 0
  | array items => items.length
  | object fields => fields.length
  | _ => 1

end Value

end XmlTemplate
