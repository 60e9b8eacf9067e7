import XmlTemplate.Number.Text
import XmlTemplate.Proofs.Expr.Parse

/-!
# The text of expressions

Every expression has a text that leaves nothing to the levels of operators: signs and operators
stand in parentheses of their own with what they apply to. Strings are quoted, and the segments of
a path are joined by slashes. `Expr.Printable` says which trees are read back from their texts:
their integers have no sign, and their names are spelled like names.
-/

namespace XmlTemplate

/-! ## Texts -/

/-- The operator as it is printed, with a blank after a word. -/
def UnaryOp.chars : UnaryOp → List Char
  | plus => ['+']
  | minus => ['-']
  | not => ['n', 'o', 't', ' ']

/-- The operator as it is printed. -/
def BinaryOp.chars : BinaryOp → List Char
  | add => ['+']
  | sub => ['-']
  | mul => ['*']
  | div => ['d', 'i', 'v']
  | mod => ['m', 'o', 'd']
  | eq => ['=', '=']
  | ne => ['!', '=']
  | lt => ['<']
  | le => ['<', '=']
  | gt => ['>']
  | ge => ['>', '=']
  | and => ['a', 'n', 'd']
  | or => ['o', 'r']

/-- What a character of a string is printed as: a backslash stands before quotes and backslashes. -/
def Literal.escaped (c : Char) : List Char :=
  if c = '\\' ∨ c = '\'' then ['\\', c] else [c]

/-- The constant as it is printed. -/
def Literal.chars : Literal → List Char
  | null => ['n', 'u', 'l', 'l']
  | bool true => ['t', 'r', 'u', 'e']
  | bool false => ['f', 'a', 'l', 's', 'e']
  | number n => n.text.toList
  | string s => '\'' :: (s.toList.flatMap escaped ++ ['\''])

mutual

/-- The characters of an expression. -/
def Expr.chars : Expr → List Char
  | .literal v => v.chars
  | .path segments => Segment.pathChars segments
  | .unary op operand => '(' :: (op.chars ++ (operand.chars ++ [')']))
  | .binary op left right =>
    '(' :: (left.chars ++ ' ' :: (op.chars ++ ' ' :: (right.chars ++ [')'])))
  | .call name args => name.toList ++ '(' :: (Expr.argChars args ++ [')'])

/-- The characters of a segment. -/
def Segment.chars : Segment → List Char
  | .root => ['/']
  | .current => ['.']
  | .parent => ['.', '.']
  | .name key => key.toList
  | .dynamic key => '[' :: (key.chars ++ [']'])

/-- Arguments with commas between them. -/
def Expr.argChars : List Expr → List Char
  | [] => []
  | [e] => e.chars
  | e :: rest => e.chars ++ ',' :: ' ' :: Expr.argChars rest

/-- Segments with slashes between them. The root is a slash itself. -/
def Segment.pathChars : List Segment → List Char
  | [] => []
  | [s] => s.chars
  | .root :: rest => '/' :: Segment.pathChars rest
  | s :: rest => s.chars ++ '/' :: Segment.pathChars rest

end

/-- The text of an expression. -/
def Expr.text (e : Expr) : String := String.ofList e.chars

/-! ## Floats -/

mutual

/-- The floats in an expression, from left to right. -/
def Expr.floats : Expr → List Float
  | .literal (.number (.float f)) => [f]
  | .literal _ => []
  | .path segments => Segment.listFloats segments
  | .unary _ operand => operand.floats
  | .binary _ left right => left.floats ++ right.floats
  | .call _ args => Expr.listFloats args

def Expr.listFloats : List Expr → List Float
  | [] => []
  | e :: rest => e.floats ++ Expr.listFloats rest

def Segment.listFloats : List Segment → List Float
  | [] => []
  | .dynamic key :: rest => key.floats ++ Segment.listFloats rest
  | _ :: rest => Segment.listFloats rest

end

/-! ## Names -/

namespace Token

/-- Letters, numbers and underscores, at least one. -/
def IsName (text : List Char) : Prop := text ≠ [] ∧ ∀ c ∈ text, continuesName c = true

/-- A name that starts with a letter or an underscore. -/
def IsWord (text : List Char) : Prop := IsName text ∧ text.head?.any startsName = true

/-- A segment that can stand behind a slash. -/
def Follows : RawSegment → Prop
  | .root => False
  | .name key => IsName key.toList
  | _ => True

/-- A segment, other than the root, that a path can start with. A keyword is no path of its own. -/
def Leads (isAlone : Prop) : RawSegment → Prop
  | .root => False
  | .name key => IsWord key.toList ∧ (isAlone → keyword? key.toList = none)
  | _ => True

/-- Segments that make a path. -/
def IsPath : List RawSegment → Prop
  | [] => False
  | .root :: rest => ∀ s ∈ rest, Follows s
  | first :: rest => Leads (rest = []) first ∧ ∀ s ∈ rest, Follows s

end Token

/-- The segment without the text in its brackets. -/
def Segment.outline : Segment → RawSegment
  | root => .root
  | current => .current
  | parent => .parent
  | name key => .name key
  | dynamic _ => .dynamic [] 0

/-- Integers are written without a sign, and floats need not be read back. -/
def Literal.Printable : Literal → Prop
  | number (.int i) => 0 ≤ i.toInt
  | number (.float _) => False
  | _ => True

mutual

/-- The names and numbers of an expression are spelled as the parser takes them. -/
def Expr.Printable : Expr → Prop
  | .literal v => v.Printable
  | .path segments => Token.IsPath (segments.map Segment.outline) ∧ Segment.AllPrintable segments
  | .unary _ operand => operand.Printable
  | .binary _ left right => left.Printable ∧ right.Printable
  | .call name args =>
    (Token.IsWord name.toList ∧ Token.keyword? name.toList = none) ∧ Expr.AllPrintable args

def Expr.AllPrintable : List Expr → Prop
  | [] => True
  | e :: rest => e.Printable ∧ Expr.AllPrintable rest

/-- The key in brackets, if there is one. -/
def Segment.Printable : Segment → Prop
  | .dynamic key => key.Printable
  | _ => True

def Segment.AllPrintable : List Segment → Prop
  | [] => True
  | s :: rest => s.Printable ∧ Segment.AllPrintable rest

end

end XmlTemplate
