import XmlTemplate.Expr.Basic
import XmlTemplate.Value.Compare

/-!
# Evaluation of expressions

Operators work on values alone: `UnaryOp.apply`, and `BinaryOp.combine?`, which fails only where
the text of a collection is asked for. `Expr.evaluate` adds what depends on the place of the
expression, given by an `Environment`: the data that paths start from and the functions. It
is written for any monad, since functions may have effects; operands and arguments are
evaluated from left to right, and the right side of `and` and `or` only if it matters.
-/

namespace XmlTemplate

-- ---------------------------------------------------------------------------
-- Operators
-- ---------------------------------------------------------------------------

/-- The value of a unary operator. -/
def UnaryOp.apply : UnaryOp → Value → Value
  | plus, v => .ofNumber v.toNumber
  | minus, v => .ofNumber v.toNumber.neg
  | not, v => .bool (!v.isTruthy)

namespace Value

/-- The sum of two numbers, or else one text after the other. -/
def add? (a b : Value) : Option Value :=
  if a.isNumeric && b.isNumeric then some (ofNumber (a.toNumber.add b.toNumber))
  else match a.text?, b.text? with
    | some s, some t => some (string (s ++ t))
    | _, _ => none

/-- Equality as expressions write it: a false value never equals a true one, a string equals what
prints as that string, and all other values are compared loosely. A string and a collection
cannot be compared. -/
def equal? (a b : Value) : Option Bool :=
  if a.isTruthy != b.isTruthy then some false
  else if a.isString || b.isString then
    if a.isCollection || b.isCollection then none else some (a.text? == b.text?)
  else some (a.looseEq b)

/-- Difference as expressions write it: a float on the left is compared by its text, all other
values loosely. -/
def differs (a b : Value) : Bool :=
  match a with
  | float _ => a.text? != b.text?
  | _ => !a.looseEq b

end Value

/-- The value of a binary operator; none if a collection has no text. -/
def BinaryOp.combine? (op : BinaryOp) (a b : Value) : Option Value :=
  match op with
  | add => a.add? b
  | sub => some (.ofNumber (a.toNumber.sub b.toNumber))
  | mul => some (.ofNumber (a.toNumber.mul b.toNumber))
  | div => some (.ofNumber (a.toNumber.div b.toNumber))
  | mod => some (.ofNumber (a.toNumber.rem b.toNumber))
  | eq => (a.equal? b).map .bool
  | ne => some (.bool (a.differs b))
  | lt => some (.bool ((a.looseCompare b).any Ordering.isLT))
  | le => some (.bool ((a.looseCompare b).any Ordering.isLE))
  | gt => some (.bool ((a.looseCompare b).any Ordering.isGT))
  | ge => some (.bool ((a.looseCompare b).any Ordering.isGE))
  | and => some (.bool (a.isTruthy && b.isTruthy))
  | or => some (.bool (a.isTruthy || b.isTruthy))

-- ---------------------------------------------------------------------------
-- Environments
-- ---------------------------------------------------------------------------

/-- What an expression can see from its place. -/
structure Environment (m : Type → Type) where
  /-- The value that a path starts with. The keys `/`, `.` and `..` name the root, the innermost
  frame of data and the frame around it; all other keys name a part of the data in sight. -/
  lookup : String → m Value
  /-- The value of a function on arguments. -/
  call : String → List Value → m Value
  /-- The failure of a collection whose text is asked for. -/
  noText : m Value

namespace Expr

variable {m : Type → Type} [Monad m]

mutual

/-- The value of an expression. -/
def evaluate (env : Environment m) : Expr → m Value
  | .literal l => pure l.toValue
  | .path [] => pure .null
  | .path (head :: tail) => do
    let start ← enter env head
    follow env start tail
  | .unary op operand => do
    let v ← evaluate env operand
    return op.apply v
  | .binary .and left right => do
    let a ← evaluate env left
    if a.isTruthy then
      let b ← evaluate env right
      return .bool b.isTruthy
    else return .bool false
  | .binary .or left right => do
    let a ← evaluate env left
    if a.isTruthy then return .bool true
    else
      let b ← evaluate env right
      return .bool b.isTruthy
  | .binary op left right => do
    let a ← evaluate env left
    let b ← evaluate env right
    match op.combine? a b with
    | some v => pure v
    | none => env.noText
  | .call name args => do
    let values ← evaluateAll env args
    env.call name values

/-- The values of expressions, from left to right. -/
def evaluateAll (env : Environment m) : List Expr → m (List Value)
  | [] => pure []
  | first :: rest => do
    let v ← evaluate env first
    let vs ← evaluateAll env rest
    return v :: vs

/-- The value that the first segment of a path leads to. -/
def enter (env : Environment m) : Segment → m Value
  | .root => env.lookup "/"
  | .current => env.lookup "."
  | .parent => env.lookup ".."
  | .name key => env.lookup key
  | .dynamic key => do
    let v ← evaluate env key
    match v.text? with
    | some key => env.lookup key
    | none => env.noText

/-- The value that the other segments of a path lead to. Nothing is evaluated past a null. -/
def follow (env : Environment m) : Value → List Segment → m Value
  | value, [] => pure value
  | .null, _ => pure .null
  | value, .current :: rest => follow env value rest
  | value, .name key :: rest => follow env (value.get key) rest
  | value, .dynamic key :: rest => do
    let v ← evaluate env key
    match v.text? with
    | some key => follow env (value.get key) rest
    | none => env.noText
  | _, .root :: _ => pure .null
  | _, .parent :: _ => pure .null

end

end Expr

end XmlTemplate
