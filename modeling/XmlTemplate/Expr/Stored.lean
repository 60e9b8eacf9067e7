import XmlTemplate.Expr.Basic
import XmlTemplate.Json.Draft

/-!
# Stored form of expressions

Expressions as JSON trees. Every constructor is a case of its name; constructors with named
parts hold an object of them. `Expr.ofDraft?` reads what `Expr.toJson` writes; it takes named
parts in an array as well.
-/

namespace XmlTemplate

namespace Literal

def toJson : Literal → Json
  | null => .string "Null"
  | bool b => .ofCase "Bool" (.bool b)
  | number (.int i) => .ofCase "Int" (.int i.toInt)
  | number (.float f) => .ofCase "Float" (.ofFloat f)
  | string s => .ofCase "String" (.string s)

def ofDraft? (d : Json.Draft) : Option Literal :=
  match d.case? with
  | some ("Null", .null) => some .null
  | some ("Bool", content) => content.bool?.map .bool
  | some ("Int", .int n) => (Number.int64? n).map fun i => .number (.int i)
  | some ("Float", content) => content.float?.map fun f => .number (.float f)
  | some ("String", content) => content.string?.map .string
  | _ => none

end Literal

def UnaryOp.name : UnaryOp → String
  | plus => "Plus"
  | minus => "Minus"
  | not => "Not"

def BinaryOp.name : BinaryOp → String
  | add => "Add"
  | sub => "Sub"
  | mul => "Mul"
  | div => "Div"
  | mod => "Mod"
  | eq => "Eq"
  | ne => "Ne"
  | lt => "Lt"
  | le => "Le"
  | gt => "Gt"
  | ge => "Ge"
  | and => "And"
  | or => "Or"

/-- An operator by its name, as a case without content. -/
def UnaryOp.ofDraft? (d : Json.Draft) : Option UnaryOp :=
  match d.case? with
  | some (name, .null) => [plus, minus, not].find? (·.name == name)
  | _ => none

/-- An operator by its name, as a case without content. -/
def BinaryOp.ofDraft? (d : Json.Draft) : Option BinaryOp :=
  match d.case? with
  | some (name, .null) =>
    [add, sub, mul, div, mod, eq, ne, lt, le, gt, ge, and, or].find? (·.name == name)
  | _ => none

-- ---------------------------------------------------------------------------
-- Writing
-- ---------------------------------------------------------------------------

mutual

def Expr.toJson : Expr → Json
  | .literal value => .ofCase "Literal" value.toJson
  | .path segments => .ofCase "Path" (.array (Segment.listToJson segments))
  | .unary op operand =>
    .ofCase "Unary" (.object [("op", .string op.name), ("operand", operand.toJson)])
  | .binary op left right =>
    .ofCase "Binary"
      (.object [("op", .string op.name), ("left", left.toJson), ("right", right.toJson)])
  | .call name args =>
    .ofCase "Call" (.object [("name", .string name), ("args", .array (Expr.listToJson args))])

def Segment.toJson : Segment → Json
  | .root => .string "Root"
  | .current => .string "Current"
  | .parent => .string "Parent"
  | .name key => .ofCase "Name" (.string key)
  | .dynamic key => .ofCase "Dynamic" key.toJson

def Expr.listToJson : List Expr → List Json
  | [] => []
  | e :: rest => e.toJson :: Expr.listToJson rest

def Segment.listToJson : List Segment → List Json
  | [] => []
  | s :: rest => s.toJson :: Segment.listToJson rest

end

-- ---------------------------------------------------------------------------
-- Reading
-- ---------------------------------------------------------------------------

mutual

def Expr.ofDraft? (d : Json.Draft) : Option Expr :=
  match _hc : d.case? with
  | some ("Literal", content) => (Literal.ofDraft? content).map .literal
  | some ("Path", content) =>
    match _hi : content.items? with
    | some items => (Segment.listOfDraft? items).map .path
    | none => none
  | some ("Unary", content) =>
    match _hf : content.record? ["op", "operand"] with
    | none => none
    | some fields =>
      match (fields.get? "op").bind UnaryOp.ofDraft?, _ho : fields.get? "operand" with
      | some op, some operand => (Expr.ofDraft? operand).map (.unary op)
      | _, _ => none
  | some ("Binary", content) =>
    match _hf : content.record? ["op", "left", "right"] with
    | none => none
    | some fields =>
      match (fields.get? "op").bind BinaryOp.ofDraft?, _hl : fields.get? "left",
        _hr : fields.get? "right" with
      | some op, some left, some right =>
        match Expr.ofDraft? left, Expr.ofDraft? right with
        | some left, some right => some (.binary op left right)
        | _, _ => none
      | _, _, _ => none
  | some ("Call", content) =>
    match _hf : content.record? ["name", "args"] with
    | none => none
    | some fields =>
      match (fields.get? "name").bind Json.Draft.string?, _ha : fields.get? "args" with
      | some name, some args =>
        match _hi : args.items? with
        | some items => (Expr.listOfDraft? items).map (.call name)
        | none => none
      | _, _ => none
  | _ => none
termination_by sizeOf d
decreasing_by
  all_goals
    have hc := Json.Draft.sizeOf_case?_lt _hc
  · have := Json.Draft.sizeOf_items?_lt _hi
    omega
  · have := Json.Draft.sizeOf_record?_lt _hf _ho
    omega
  · have := Json.Draft.sizeOf_record?_lt _hf _hl
    omega
  · have := Json.Draft.sizeOf_record?_lt _hf _hr
    omega
  · have := Json.Draft.sizeOf_record?_lt _hf _ha
    have := Json.Draft.sizeOf_items?_lt _hi
    omega

def Segment.ofDraft? (d : Json.Draft) : Option Segment :=
  match _hc : d.case? with
  | some ("Root", .null) => some .root
  | some ("Current", .null) => some .current
  | some ("Parent", .null) => some .parent
  | some ("Name", content) => content.string?.map .name
  | some ("Dynamic", content) => (Expr.ofDraft? content).map .dynamic
  | _ => none
termination_by sizeOf d
decreasing_by
  have := Json.Draft.sizeOf_case?_lt _hc
  omega

def Expr.listOfDraft? (items : List Json.Draft) : Option (List Expr) :=
  match items with
  | [] => some []
  | item :: rest =>
    match Expr.ofDraft? item, Expr.listOfDraft? rest with
    | some e, some es => some (e :: es)
    | _, _ => none
termination_by sizeOf items

def Segment.listOfDraft? (items : List Json.Draft) : Option (List Segment) :=
  match items with
  | [] => some []
  | item :: rest =>
    match Segment.ofDraft? item, Segment.listOfDraft? rest with
    | some s, some ss => some (s :: ss)
    | _, _ => none
termination_by sizeOf items

end

end XmlTemplate
