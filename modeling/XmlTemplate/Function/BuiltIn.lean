import XmlTemplate.Calendar.Format
import XmlTemplate.Function.Basic
import XmlTemplate.Function.NumberFormat
import XmlTemplate.Text.Entity

/-!
# Built-in functions

The functions that every template can use. Each one asks for a least number of arguments and
ignores arguments that it does not know.
-/

namespace XmlTemplate

inductive BuiltIn where
  | position
  | first
  | last
  | even
  | odd
  | key
  | count
  | sum
  | choose
  | default
  | substring
  | escape
  | formatNumber
  | formatStamp
  | constant
  deriving Repr, DecidableEq

namespace BuiltIn

/-- All built-in functions with their names in expressions. -/
def names : List (String × BuiltIn) := [
  ("position", position), ("first", first), ("last", last), ("even", even), ("odd", odd),
  ("key", key), ("count", count), ("sum", sum), ("if", choose), ("default", default),
  ("substr", substring), ("htmlentities", escape), ("format_number", formatNumber),
  ("format_timestamp", formatStamp), ("const", constant)]

def ofName? (name : String) : Option BuiltIn := names.lookup name

def name (b : BuiltIn) : String :=
  ((names.find? (·.2 == b)).map (·.1)).getD ""

/-- The least number of arguments. -/
def leastArguments : BuiltIn → Nat
  | position | first | last | even | odd | key => 0
  | count | sum | escape | formatNumber | constant => 1
  | default | substring | formatStamp => 2
  | choose => 3

-- ---------------------------------------------------------------------------
-- Values
-- ---------------------------------------------------------------------------

/-- The sum of the elements of a collection; the number of any other value. -/
def total : Value → Number
  | .array items => items.foldl (fun n v => n.add v.toNumber) (.int 0)
  | .object fields => fields.foldl (fun n (_, v) => n.add v.toNumber) (.int 0)
  | v => v.toNumber

/-- The characters from `start` on, `length` of them if it is given. A negative start counts from
the end, and a negative length stops that many characters before the end. None if the index of
the end is not a 64-bit integer. -/
def substring? (text : List Char) (start : Int64) (length : Option Int64) : Option (List Char) :=
  let size : Int := text.length
  let first := if start < 0 then max (size + start.toInt) 0 else min start.toInt size
  let stop : Option Int := match length with
    | none => some size
    | some length =>
      if length < 0 then some (max (size + length.toInt) first)
      else if first + length.toInt ≤ Int64.maxValue.toInt then
        some (min (first + length.toInt) size)
      else none
  stop.map fun stop => (text.drop first.toNat).take (stop - first).toNat

/-- Null and the empty string are missing values. -/
def isMissing : Value → Bool
  | .null => true
  | .string s => s == ""
  | _ => false

/-- Widths up to this number can be written. -/
def widthLimit : Nat := 65535

-- ---------------------------------------------------------------------------
-- Calls
-- ---------------------------------------------------------------------------

/-- An argument, null if it was not given. -/
def arg (args : List Value) (i : Nat) : Value := (args[i]?).getD .null

/-- The text of an argument that need not be given. -/
def optionalText (anchor : Anchor) (args : List Value) (i : Nat) (otherwise : String) :
    Except Stop String :=
  match args[i]? with
  | some v => anchor.text v
  | none => .ok otherwise

/-- The value of a function on arguments, of which there are enough. -/
def apply (b : BuiltIn) (anchor : Anchor) (args : List Value) : Except Stop Value :=
  let walk := anchor.iteration
  match b with
  | position => .ok (.ofNat walk.position)
  | first => .ok (.bool (walk.position == 1))
  | last => .ok (.bool (walk.count > 0 && walk.position == walk.count))
  | even => .ok (.bool (walk.position % 2 == 0))
  | odd => .ok (.bool (walk.position % 2 == 1))
  | key => .ok walk.key
  | count => .ok (.ofNat (arg args 0).count)
  | sum => .ok (.ofNumber (total (arg args 0)))
  | choose => .ok (if (arg args 0).isTruthy then arg args 1 else arg args 2)
  | default => .ok (if isMissing (arg args 0) then arg args 1 else arg args 0)
  | substring => do
    let text ← anchor.text (arg args 0)
    let length := (args[2]?).map fun v => v.toNumber.toInt64
    match substring? text.toList (arg args 1).toNumber.toInt64 length with
    | some part => return .string (String.ofList part)
    | none => throw .overflow
  | escape => do
    let text ← anchor.text (arg args 0)
    return .string (Text.escapeHtml text)
  | formatNumber => do
    let decimals := (arg args 1).toNumber.toInt64.toInt.toNat
    let point ← optionalText anchor args 2 "."
    let separator ← optionalText anchor args 3 ","
    if decimals ≤ widthLimit then
      let style : NumberFormat := ⟨decimals, point.toList, separator.toList⟩
      return .string (style.text (arg args 0).toNumber.toFloat)
    else throw .overflow
  | formatStamp => do
    let stamp := if isMissing (arg args 0) then anchor.now else (arg args 0).toNumber.toInt64.toInt
    let pattern ← anchor.text (arg args 1)
    return .string (Calendar.formatStamp stamp pattern)
  | constant => do
    let name ← anchor.text (arg args 0)
    let name := String.ofList (Text.trim Text.isWhiteSpace name.toList)
    return (anchor.constants.get? name).getD .null

/-- The failure of a call with too few arguments. -/
def fewArguments (b : BuiltIn) (location : Location) (given : Nat) : Fault :=
  .functionCall location b.name
    ("expected at least " ++ toString b.leastArguments ++ " arguments, " ++ toString given
      ++ " received")

/-- A built-in function as a function of the expression language. -/
def call (b : BuiltIn) : Function := fun anchor args =>
  if args.length < b.leastArguments then
    .error (.fault (b.fewArguments anchor.location args.length))
  else b.apply anchor args

/-- Finds the built-in functions. -/
def factory : FunctionFactory := fun name => (ofName? name).map call

end BuiltIn

end XmlTemplate
