import XmlTemplate.Table

/-!
# JSON trees

Numbers are integers or floats, and the fields of an object keep their order.
-/

namespace XmlTemplate

/-- A JSON value. -/
inductive Json where
  | null
  | bool (value : Bool)
  | int (value : Int)
  | float (value : Float)
  | string (value : String)
  | array (items : List Json)
  | object (fields : List (String × Json))
  deriving Inhabited

namespace Json

/-- A case with content. -/
def ofCase (name : String) (content : Json) : Json := object [(name, content)]

/-- Null for none. -/
def ofOption (write : α → Json) : Option α → Json
  | none => null
  | some a => write a

/-- A float as a JSON value: numbers that are not finite have none and become null. -/
def ofFloat (f : Float) : Json := if f.isFinite then float f else null

end Json

end XmlTemplate
