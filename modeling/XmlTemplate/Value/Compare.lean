import XmlTemplate.Value.Basic

/-!
# Comparison of values

Arrays agree if they have the same length and agree item by item, objects if they have the
same number of fields and agree key by key, in any order. What it means for other values to
agree is a parameter: `same` compares values of one kind, `looseEq` converts before it
compares. `looseCompare` orders values after the same conversions.
-/

namespace XmlTemplate.Value

-- ---------------------------------------------------------------------------
-- Agreement
-- ---------------------------------------------------------------------------

mutual

/-- Collections of one kind agree part by part; `leaf` decides for all other pairs. -/
def agree (leaf : Value → Value → Bool) : Value → Value → Bool
  | array a, array b => a.length == b.length && agreeItems leaf a b
  | object a, object b => a.length == b.length && agreeFields leaf a b
  | a, b => leaf a b

/-- The items agree as far as both lists go. -/
def agreeItems (leaf : Value → Value → Bool) : List Value → List Value → Bool
  | a :: as, b :: bs => agree leaf a b && agreeItems leaf as bs
  | _, _ => true

/-- Every field agrees with the field of the same key. -/
def agreeFields (leaf : Value → Value → Bool) : List (String × Value) → List (String × Value) → Bool
  | [], _ => true
  | (key, a) :: rest, fields =>
    (match Table.get? key fields with
      | some b => agree leaf a b
      | none => false) && agreeFields leaf rest fields

end

/-- Values of one kind that are equal; host objects if they are the same object. -/
def sameLeaf : Value → Value → Bool
  | null, null => true
  | bool a, bool b => a == b
  | int a, int b => a == b
  | float a, float b => a == b
  | string a, string b => a == b
  | host a .., host b .. => a == b
  | _, _ => false

/-- Equality without conversions. -/
def same : Value → Value → Bool := agree sameLeaf

/-- A number equals a text if the text reads as that number, or else if it prints as that text. -/
def numberEqText (n : Number) (s : String) : Bool :=
  match Number.parse? s with
  | some m => n.compare m == some .eq
  | none => n.text == s

/-- Loose equality of two values that are not both arrays or both objects. -/
def looseLeaf : Value → Value → Bool
  | null, null => true
  | bool a, b => a == b.isTruthy
  | a, bool b => a.isTruthy == b
  | null, string s => s == ""
  | string s, null => s == ""
  | null, b => !b.isTruthy
  | a, null => !a.isTruthy
  | string a, string b =>
    match Number.parse? a, Number.parse? b with
    | some x, some y => x.compare y == some .eq
    | _, _ => a == b
  | int i, string s => numberEqText (.int i) s
  | float f, string s => numberEqText (.float f) s
  | string s, int i => numberEqText (.int i) s
  | string s, float f => numberEqText (.float f) s
  | int a, int b => (Number.int a).compare (.int b) == some .eq
  | int a, float b => (Number.int a).compare (.float b) == some .eq
  | float a, int b => (Number.float a).compare (.int b) == some .eq
  | float a, float b => (Number.float a).compare (.float b) == some .eq
  | host a .., host b .. => a == b
  | _, _ => false

/-- Equality after conversions. -/
def looseEq : Value → Value → Bool := agree looseLeaf

-- ---------------------------------------------------------------------------
-- Order
-- ---------------------------------------------------------------------------

/-- Texts are ordered by code points. -/
def compareTexts (a b : String) : Ordering :=
  if a < b then .lt else if b < a then .gt else .eq

/-- Order of truth values: false comes first. -/
def compareTruth (a b : Bool) : Ordering := compare a.toNat b.toNat

/-- A number is compared with a text as a number if the text is one, else as a text. -/
def compareNumberText (n : Number) (s : String) : Option Ordering :=
  match Number.parse? s with
  | some m => n.compare m
  | none => some (compareTexts n.text s)

/-- Order after conversions; none if the two values cannot be ordered. -/
def looseCompare : Value → Value → Option Ordering
  | null, b => some (compareTruth false b.isTruthy)
  | bool a, b => some (compareTruth a b.isTruthy)
  | a, null => some (compareTruth a.isTruthy false)
  | a, bool b => some (compareTruth a.isTruthy b)
  | string a, string b =>
    match Number.parse? a, Number.parse? b with
    | some x, some y => x.compare y
    | _, _ => some (compareTexts a b)
  | int i, string s => compareNumberText (.int i) s
  | float f, string s => compareNumberText (.float f) s
  | string s, int i => (compareNumberText (.int i) s).map Ordering.swap
  | string s, float f => (compareNumberText (.float f) s).map Ordering.swap
  | int a, int b => (Number.int a).compare (.int b)
  | int a, float b => (Number.int a).compare (.float b)
  | float a, int b => (Number.float a).compare (.int b)
  | float a, float b => (Number.float a).compare (.float b)
  | array a, array b => some (compare a.length b.length)
  | object a, object b => some (compare a.length b.length)
  | _, _ => none

end XmlTemplate.Value
