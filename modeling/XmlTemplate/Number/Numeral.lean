import XmlTemplate.Decimal.Reader
import XmlTemplate.Number.Basic

/-!
# Numerals

The text of numbers: an optional sign, digits with an optional fraction (one of both may be
missing), and an optional exponent. `Numeral.scan?` takes the longest numeral at the start of
a text. `Number.parse?` reads a text that is one numeral between blanks, `Number.leading`
whatever numeral a text starts with.
-/

namespace XmlTemplate

/-- Parts of a numeral as written. -/
structure Numeral where
  sign : Option Char
  whole : List Char
  /-- Digits after the point, when there is a point. -/
  fraction : Option (List Char)
  /-- The letter, sign and digits of the exponent. -/
  exponent : Option (Char × Option Char × List Char)
  deriving Repr, DecidableEq

namespace Numeral

/-- A plus or minus sign at the start of a text, and the rest. -/
def sign? : List Char → Option Char × List Char
  | '+' :: rest => (some '+', rest)
  | '-' :: rest => (some '-', rest)
  | text => (none, text)

/-- A point with the digits after it. A point alone counts only after `hasWhole` digits. -/
def fraction? (hasWhole : Bool) : List Char → Option (List Char) × List Char
  | '.' :: rest =>
    let digits := rest.takeWhile Char.isDigit
    if hasWhole || !digits.isEmpty then (some digits, rest.dropWhile Char.isDigit)
    else (none, '.' :: rest)
  | text => (none, text)

/-- An exponent, which needs at least one digit. -/
def exponent? : List Char → Option (Char × Option Char × List Char) × List Char
  | [] => (none, [])
  | mark :: rest =>
    let (sign, afterSign) := sign? rest
    let digits := afterSign.takeWhile Char.isDigit
    if (mark == 'e' || mark == 'E') && !digits.isEmpty then
      (some (mark, sign, digits), afterSign.dropWhile Char.isDigit)
    else (none, mark :: rest)

/-- The longest numeral at the start of a text, and what follows it. -/
def scan? (text : List Char) : Option (Numeral × List Char) :=
  let (sign, unsigned) := sign? text
  let whole := unsigned.takeWhile Char.isDigit
  let (fraction, afterFraction) := fraction? (!whole.isEmpty) (unsigned.dropWhile Char.isDigit)
  if whole.isEmpty && fraction.isNone then none
  else
    let (exponent, rest) := exponent? afterFraction
    some (⟨sign, whole, fraction, exponent⟩, rest)

/-- The numeral as text. -/
def text (n : Numeral) : List Char :=
  n.sign.toList ++ n.whole
    ++ (n.fraction.map ('.' :: ·)).getD []
    ++ (n.exponent.map fun (mark, sign, digits) => mark :: (sign.toList ++ digits)).getD []

/-- Length of the numeral at the start of a text, `0` when there is none. -/
def leadingLength (text : List Char) : Nat :=
  match scan? text with
  | some (_, rest) => text.length - rest.length
  | none => 0

def isNegative (n : Numeral) : Bool := n.sign == some '-'

/-- Value of the written exponent. -/
def scale (n : Numeral) : Int :=
  match n.exponent with
  | none => 0
  | some (_, sign, digits) =>
    if sign == some '-' then -(Text.ofDigits digits : Int) else Text.ofDigits digits

/-- The nearest float. -/
def toFloat (n : Numeral) : Float :=
  Decimal.ofParts n.isNegative n.whole (n.fraction.getD []) n.scale

/-- Value of a numeral without point and exponent. -/
def toInt (n : Numeral) : Int :=
  if n.isNegative then -(Text.ofDigits n.whole : Int) else Text.ofDigits n.whole

/-- A numeral with neither point nor exponent is an integer if it fits; all others are floats. -/
def toNumber (n : Numeral) : Number :=
  if n.fraction.isNone && n.exponent.isNone then
    match Number.int64? n.toInt with
    | some i => .int i
    | none => .float n.toFloat
  else .float n.toFloat

end Numeral

namespace Number

/-- Blanks that may surround a number: space, tab, line feed, vertical tab, form feed, return. -/
def isBlank (c : Char) : Bool :=
  c == ' ' || (9 ≤ c.toNat && c.toNat ≤ 13)

/-- A text that is one numeral, apart from blanks around it. -/
def parse? (s : String) : Option Number :=
  match Numeral.scan? (Text.trim isBlank s.toList) with
  | some (n, []) => some n.toNumber
  | _ => none

/-- The numeral that a text starts with, after blanks; zero when there is none. -/
def leading (s : String) : Number :=
  match Numeral.scan? (s.toList.dropWhile isBlank) with
  | some (n, _) => n.toNumber
  | none => .int 0

end Number

end XmlTemplate
