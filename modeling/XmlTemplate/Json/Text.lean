import XmlTemplate.Decimal.Shortest
import XmlTemplate.Decimal.Rounded
import XmlTemplate.Number.Text
import XmlTemplate.Json.Basic

/-!
# Text of JSON

A value is written without blanks. A float is the shortest decimal that reads back. Exponents
from -5 to 15 are written out with a point and at least one digit after it, all others as in
`1e+16` and `1.5e-7`.
-/

namespace XmlTemplate.Json

/-- The text of a finite float, and `null` for all others. -/
def floatText (f : Float) : String :=
  match Decimal.Binary.ofFloat? f with
  | none => "null"
  | some x =>
    let (digits, exponent) := Decimal.shortestDigits x
    let sign := if x.negative then ['-'] else []
    let body :=
      if -5 ≤ exponent ∧ exponent < 16 then
        let text := Decimal.positional digits exponent
        if text.contains '.' then text else text ++ ['.', '0']
      else
        let mantissa := match digits with
          | [] => []
          | first :: [] => [first]
          | first :: rest => first :: '.' :: rest
        let mark := if exponent < 0 then '-' else '+'
        mantissa ++ 'e' :: mark :: Text.digits exponent.natAbs
    String.ofList (sign ++ body)

-- ---------------------------------------------------------------------------
-- Strings
-- ---------------------------------------------------------------------------

/-- Two hexadecimal digits. -/
def hexByte (n : Nat) : List Char := [Nat.digitChar (n / 16 % 16), Nat.digitChar (n % 16)]

/-- What a character is written as within a string: control characters, quotes and backslashes
are escaped. -/
def escaped (c : Char) : List Char :=
  if c = '"' then ['\\', '"']
  else if c = '\\' then ['\\', '\\']
  else if c = '\n' then ['\\', 'n']
  else if c = '\r' then ['\\', 'r']
  else if c = '\t' then ['\\', 't']
  else if c = '\x08' then ['\\', 'b']
  else if c = '\x0c' then ['\\', 'f']
  else if c < ' ' then '\\' :: 'u' :: '0' :: '0' :: hexByte c.toNat
  else [c]

/-- A string in quotes. -/
def quoted (s : String) : List Char := '"' :: (s.toList.flatMap escaped ++ ['"'])

-- ---------------------------------------------------------------------------
-- Values
-- ---------------------------------------------------------------------------

mutual

/-- The characters of a value. -/
def chars : Json → List Char
  | null => "null".toList
  | bool b => (if b then "true" else "false").toList
  | int n => Number.intText n
  | float f => (floatText f).toList
  | string s => quoted s
  | array items => '[' :: (itemChars items ++ [']'])
  | object fields => '\x7b' :: (fieldChars fields ++ ['\x7d'])

/-- Items with commas between them. -/
def itemChars : List Json → List Char
  | [] => []
  | [item] => chars item
  | item :: rest => chars item ++ ',' :: itemChars rest

/-- Keys and values with commas between the fields. -/
def fieldChars : List (String × Json) → List Char
  | [] => []
  | [(key, value)] => quoted key ++ ':' :: chars value
  | (key, value) :: rest => quoted key ++ ':' :: (chars value ++ ',' :: fieldChars rest)

end

/-- The text of a value. -/
def text (j : Json) : String := String.ofList (chars j)

end XmlTemplate.Json
