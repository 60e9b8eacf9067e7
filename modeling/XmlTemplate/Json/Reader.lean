import XmlTemplate.Json.Token

/-!
# Reading JSON

A reader holds the containers that are open around the current place and what may come next.
Each token moves it by one step; a text is accepted if its last token closes the value.
Containers that are nested more than 127 deep have no value.
-/

namespace XmlTemplate.Json

/-- An open container: what was read of it so far, the last item first. -/
inductive Frame where
  | array (items : List Draft)
  /-- An object with its current key. A key may be a string without a text. -/
  | object (fields : List (Option String × Draft)) (key : Option String)

/-- What may come next. -/
inductive Expected where
  /-- A value; the bracket that closes an array too if it is its first item. -/
  | value (mayClose : Bool)
  /-- A comma or the end of the innermost container. -/
  | more
  /-- A key; the brace that closes an object too if it is its first key. -/
  | key (mayClose : Bool)
  | colon
  /-- Nothing: the value is complete. -/
  | nothing (result : Draft)

structure Reader where
  frames : List Frame
  expected : Expected

/-- Number of open containers at which the innermost has no value. -/
def maxDepth : Nat := 128

/-- Take a complete value into the innermost open container. -/
def Reader.complete (value : Draft) : List Frame → Reader
  | [] => ⟨[], .nothing value⟩
  | .array items :: outer => ⟨.array (value :: items) :: outer, .more⟩
  | .object fields key :: outer => ⟨.object ((key, value) :: fields) key :: outer, .more⟩

/-- Close a container within `outer`. -/
def Reader.close (value : Draft) (outer : List Frame) : Reader :=
  complete (if outer.length + 1 < maxDepth then value else .void) outer

/-- An object, which has no value if one of its keys has no text. -/
def ofFields (fields : List (Option String × Draft)) : Draft :=
  match fields.mapM fun (field : Option String × Draft) => field.1.map (·, field.2) with
  | some fields => .object fields
  | none => .void

/-- The reader after a token; none if the token may not come here. -/
def Reader.step (r : Reader) (token : Token) : Option Reader :=
  match r.expected, token, r.frames with
  | .value _, .leaf value, frames => some (complete value frames)
  | .value _, .string text, frames => some (complete (text.elim .void .string) frames)
  | .value _, .openArray, frames => some ⟨.array [] :: frames, .value true⟩
  | .value _, .openObject, frames => some ⟨.object [] none :: frames, .key true⟩
  | .value true, .closeArray, .array _ :: outer => some (close (.array []) outer)
  | .more, .comma, .array items :: outer => some ⟨.array items :: outer, .value false⟩
  | .more, .comma, .object fields key :: outer => some ⟨.object fields key :: outer, .key false⟩
  | .more, .closeArray, .array items :: outer => some (close (.array items.reverse) outer)
  | .more, .closeObject, .object fields _ :: outer => some (close (ofFields fields.reverse) outer)
  | .key true, .closeObject, .object _ _ :: outer => some (close (.object []) outer)
  | .key _, .string key, .object fields _ :: outer => some ⟨.object fields key :: outer, .colon⟩
  | .colon, .colon, frames => some ⟨frames, .value false⟩
  | _, _, _ => none

/-- The parts that a text spells as JSON. -/
def Draft.read? (text : String) : Option Draft :=
  let chars := text.toList
  match tokens? chars.length chars with
  | none => none
  | some tokens =>
    match tokens.foldlM Reader.step ⟨[], .value false⟩ with
    | some ⟨_, .nothing result⟩ => some result
    | _ => none

/-- The value that a text spells as JSON. -/
def read? (text : String) : Option Json := (Draft.read? text).bind Draft.value?

end XmlTemplate.Json
