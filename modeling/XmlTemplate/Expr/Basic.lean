import XmlTemplate.Value.Basic

/-!
# Expressions

The tree of an expression. A path is a list of segments that lead from a frame of data to a
part of it; the key of a segment may be computed by an expression of its own.
-/

namespace XmlTemplate

/-- A constant. -/
inductive Literal where
  | null
  | bool (value : Bool)
  | number (value : Number)
  | string (value : String)
  deriving Inhabited

def Literal.toValue : Literal → Value
  | null => .null
  | bool b => .bool b
  | number n => .ofNumber n
  | string s => .string s

inductive UnaryOp where
  | plus
  | minus
  | not
  deriving Repr, DecidableEq

inductive BinaryOp where
  | add
  | sub
  | mul
  | div
  | mod
  | eq
  | ne
  | lt
  | le
  | gt
  | ge
  | and
  | or
  deriving Repr, DecidableEq

/-- How tightly an operator binds; all operators of one level group to the left. -/
def BinaryOp.level : BinaryOp → Nat
  | and | or => 1
  | eq | ne | lt | le | gt | ge => 2
  | add | sub => 3
  | mul | div | mod => 4

mutual

inductive Expr where
  | literal (value : Literal)
  | path (segments : List Segment)
  | unary (op : UnaryOp) (operand : Expr)
  | binary (op : BinaryOp) (left right : Expr)
  | call (name : String) (args : List Expr)

/-- A step of a path. -/
inductive Segment where
  | root
  | current
  | parent
  | name (key : String)
  /-- A key computed by an expression in brackets. -/
  | dynamic (key : Expr)

end

instance : Inhabited Expr := ⟨.literal .null⟩
instance : Inhabited Segment := ⟨.root⟩

end XmlTemplate
