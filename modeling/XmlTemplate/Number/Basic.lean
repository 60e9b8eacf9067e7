/-!
# Numbers

A number is a 64-bit integer or a float. Arithmetic on integers is exact: a result outside the
64-bit range is computed on floats instead. Division and remainder by zero give zero.
-/

namespace XmlTemplate

/-- A 64-bit integer or a float. -/
inductive Number where
  | int (value : Int64)
  | float (value : Float)
  deriving DecidableEq

namespace Number

/-- Number of values of a word of 64 bits. -/
def wordSize : Nat := 0x10000000000000000

/-- The 64-bit integer with a given value, if it is in range. -/
def int64? (n : Int) : Option Int64 :=
  if Int64.minValue.toInt ≤ n ∧ n ≤ Int64.maxValue.toInt then some (Int64.ofInt n) else none

theorem toInt_of_int64? {n : Int} {i : Int64} (h : int64? n = some i) : i.toInt = n := by
  unfold int64? at h
  split at h
  · rename_i hn
    cases h
    exact Int64.toInt_ofInt_of_le hn.1 (Int.lt_add_one_of_le hn.2)
  · cases h

theorem int64?_toInt (i : Int64) : int64? i.toInt = some i := by
  rw [int64?, if_pos ⟨i.minValue_le_toInt, i.toInt_le⟩, Int64.ofInt_toInt]

/-- The float nearest to an integer; of two equally near ones, the one with the even mantissa. -/
def nearestFloat (i : Int64) : Float := .ofModel (.ofInt64 i)

/-- The number as a float, rounded to the nearest one. -/
def toFloat : Number → Float
  | int i => nearestFloat i
  | float f => f

/-- The number as an integer: fractions are cut off, too large magnitudes are clamped, and values
that are not finite count as zero. -/
def toInt64 : Number → Int64
  | int i => i
  | float f => if f.isFinite then f.toModel.toInt64 else 0

def isZero (n : Number) : Bool := n.toFloat == 0.0

/-- The exact integer result if it is in range, else the result on floats. -/
def exactOr (exact : Int) (approximate : Float) : Number :=
  match int64? exact with
  | some i => int i
  | none => float approximate

def add : Number → Number → Number
  | int a, int b => exactOr (a.toInt + b.toInt) (nearestFloat a + nearestFloat b)
  | a, b => float (a.toFloat + b.toFloat)

def sub : Number → Number → Number
  | int a, int b => exactOr (a.toInt - b.toInt) (nearestFloat a - nearestFloat b)
  | a, b => float (a.toFloat - b.toFloat)

def mul : Number → Number → Number
  | int a, int b => exactOr (a.toInt * b.toInt) (nearestFloat a * nearestFloat b)
  | a, b => float (a.toFloat * b.toFloat)

/-- Division; an integer if both sides are integers and the division leaves no rest. -/
def div (a b : Number) : Number :=
  if b.isZero then int 0
  else match a, b with
    | int x, int y =>
      if x.toInt.tmod y.toInt = 0 then
        exactOr (x.toInt.tdiv y.toInt) (nearestFloat x / nearestFloat y)
      else float (nearestFloat x / nearestFloat y)
    | _, _ => float (a.toFloat / b.toFloat)

/-- Remainder of the integer parts, with the sign of the dividend. -/
def rem (a b : Number) : Number :=
  if b.toInt64 = 0 then int 0
  else int (Int64.ofInt (a.toInt64.toInt.tmod b.toInt64.toInt))

def neg : Number → Number
  | int i => exactOr (-i.toInt) (-nearestFloat i)
  | float f => float (-f)

/-- Order of two floats; none if one of them is not a number. -/
def compareFloats (a b : Float) : Option Ordering :=
  if a < b then some .lt
  else if b < a then some .gt
  else if a == b then some .eq
  else none

/-- Order of two numbers: exact on integers, else on floats. -/
def compare : Number → Number → Option Ordering
  | int a, int b => some (Ord.compare a.toInt b.toInt)
  | a, b => compareFloats a.toFloat b.toFloat

end Number

end XmlTemplate
