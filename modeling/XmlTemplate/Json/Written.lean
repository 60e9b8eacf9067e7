import XmlTemplate.Json.Reader
import XmlTemplate.Json.Text

/-!
# Trees read back

What is read where a tree was written. Everything but floats comes back as it was; a float with
many digits may come back as a neighbour, since reading keeps 64 bits of its digits and rounds
more than once. Containers that are nested too deeply are written and have no value when they
are read.
-/

namespace XmlTemplate.Json.Draft

mutual

/-- What is read of a tree within `depth` containers. -/
def ofJson (depth : Nat) : Json → Draft
  | .null => null
  | .bool b => bool b
  | .int n => int n
  | .float f => (read? (floatText f)).getD void
  | .string s => string s
  | .array items => if depth + 1 < maxDepth then array (ofItems (depth + 1) items) else void
  | .object fields => if depth + 1 < maxDepth then object (ofFields (depth + 1) fields) else void

def ofItems (depth : Nat) : List Json → List Draft
  | [] => []
  | item :: rest => ofJson depth item :: ofItems depth rest

def ofFields (depth : Nat) : List (String × Json) → List (String × Draft)
  | [] => []
  | (key, value) :: rest => (key, ofJson depth value) :: ofFields depth rest

end

end XmlTemplate.Json.Draft
