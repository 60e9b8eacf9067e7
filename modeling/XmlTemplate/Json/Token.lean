import XmlTemplate.Number.Numeral
import XmlTemplate.Json.Draft

/-!
# JSON tokens

A JSON text is cut into marks, words, strings and numbers. Integers are exact from -2^63 to
2^64 - 1. All other numbers are floats: the leading digits that fit into 64 bits, as a float,
are scaled by a power of ten that is a float too. A number may turn out too large, and a string
may hold a surrogate on its own: such a token is well formed and has no value.
-/

namespace XmlTemplate.Json

inductive Token where
  | openArray
  | closeArray
  | openObject
  | closeObject
  | colon
  | comma
  /-- A string, and its text if it has one. -/
  | string (text : Option String)
  /-- A number or word. -/
  | leaf (value : Draft)

-- ---------------------------------------------------------------------------
-- Strings
-- ---------------------------------------------------------------------------

/-- The character that a letter after a backslash stands for. -/
def escape? : Char → Option Char
  | '"' => some '"'
  | '\\' => some '\\'
  | '/' => some '/'
  | 'b' => some '\x08'
  | 'f' => some '\x0c'
  | 'n' => some '\n'
  | 'r' => some '\r'
  | 't' => some '\t'
  | _ => none

/-- The number that four hexadecimal digits spell. -/
def unit? (a b c d : Char) : Option Nat :=
  match Text.hexValue? a, Text.hexValue? b, Text.hexValue? c, Text.hexValue? d with
  | some a, some b, some c, some d => some (((a * 16 + b) * 16 + c) * 16 + d)
  | _, _, _, _ => none

/-- A part of a string as written: a character, or the number of a 16-bit unit. -/
inductive Piece where
  | char (c : Char)
  | unit (code : Nat)
  deriving Repr, DecidableEq

/-- The parts of a string up to its closing quote, and the rest. Control characters are refused. -/
def pieces? : List Char → Option (List Piece × List Char)
  | '"' :: rest => some ([], rest)
  | '\\' :: 'u' :: a :: b :: c :: d :: rest =>
    match unit? a b c d, pieces? rest with
    | some code, some (pieces, rest) => some (.unit code :: pieces, rest)
    | _, _ => none
  | '\\' :: letter :: rest =>
    match escape? letter, pieces? rest with
    | some c, some (pieces, rest) => some (.char c :: pieces, rest)
    | _, _ => none
  | c :: rest =>
    if c.toNat < 0x20 then none
    else match pieces? rest with
      | some (pieces, rest) => some (.char c :: pieces, rest)
      | none => none
  | [] => none

/-- The characters that parts spell. A high surrogate and the low one after it make one character;
a surrogate on its own makes none. -/
def joined? : List Piece → Option (List Char)
  | [] => some []
  | .char c :: rest => (joined? rest).map (c :: ·)
  | .unit high :: .unit low :: rest =>
    if high < 0xd800 ∨ 0xe000 ≤ high then
      (joined? (.unit low :: rest)).map (Char.ofNat high :: ·)
    else if high < 0xdc00 ∧ 0xdc00 ≤ low ∧ low < 0xe000 then
      let paired := 0x10000 + (high - 0xd800) * 0x400 + (low - 0xdc00)
      (joined? rest).map (Char.ofNat paired :: ·)
    else none
  | .unit code :: rest =>
    if code < 0xd800 ∨ 0xe000 ≤ code then (joined? rest).map (Char.ofNat code :: ·) else none

-- ---------------------------------------------------------------------------
-- Numbers
-- ---------------------------------------------------------------------------

/-- Digits kept as a 64-bit number, and the power of ten that they are a multiple of. -/
structure Kept where
  digits : Nat
  exponent : Int
  full : Bool

/-- Take a digit before the point. Digits after the first that does not fit only count. -/
def Kept.whole (k : Kept) (c : Char) : Kept :=
  let next := k.digits * 10 + Text.digitValue c
  if k.full ∨ Number.wordSize ≤ next then { k with exponent := k.exponent + 1, full := true }
  else { k with digits := next }

/-- Take a digit after the point. Digits after the first that does not fit are dropped. -/
def Kept.fraction (k : Kept) (c : Char) : Kept :=
  let next := k.digits * 10 + Text.digitValue c
  if k.full ∨ Number.wordSize ≤ next then { k with full := true }
  else { k with digits := next, exponent := k.exponent - 1 }

/-- A float scaled by a power of ten; none if the result is too large. Three divisions by
`10 ^ 308` turn every 64-bit number into zero. -/
def scaled? (f : Float) (exponent : Int) : Nat → Option Float
  | 0 => some f
  | steps + 1 =>
    if exponent.natAbs ≤ 308 then
      let power := Decimal.toFloat 1 exponent.natAbs
      if exponent < 0 then some (f / power)
      else if (f * power).isFinite then some (f * power)
      else none
    else if f == 0.0 then some f
    else if 0 < exponent then none
    else scaled? (f / Decimal.toFloat 1 308) (exponent + 308) steps

/-- A numeral of JSON has no plus sign, no needless zero in front, and digits on both sides of a
point. -/
def isNumber (n : Numeral) : Bool :=
  n.sign != some '+' && !n.whole.isEmpty && n.fraction != some []
    && (n.whole.head? != some '0' || n.whole.length == 1)

/-- The number that a numeral spells; void if it is too large. -/
def ofNumeral (n : Numeral) : Draft :=
  let whole := n.whole.foldl Kept.whole ⟨0, 0, false⟩
  let float (digits : Kept) (exponent : Int) : Draft :=
    match scaled? (Float.ofNat digits.digits) exponent 3 with
    | some f => .float (if n.isNegative then -f else f)
    | none => .void
  if n.fraction.isNone && n.exponent.isNone then
    let value := n.toInt
    if Int64.minValue.toInt ≤ value ∧ value < Number.wordSize ∧ ¬(n.isNegative ∧ value = 0)
    then .int value
    else float whole whole.exponent
  else
    let all := (n.fraction.getD []).foldl Kept.fraction { whole with full := false }
    float all (all.exponent + n.scale)

-- ---------------------------------------------------------------------------
-- Cutting
-- ---------------------------------------------------------------------------

def isSpace (c : Char) : Bool := c == ' ' || c == '\n' || c == '\t' || c == '\r'

/-- The word or mark that a text starts with, and the rest. -/
def mark? : List Char → Option (Token × List Char)
  | '[' :: rest => some (.openArray, rest)
  | ']' :: rest => some (.closeArray, rest)
  | '\x7b' :: rest => some (.openObject, rest)
  | '\x7d' :: rest => some (.closeObject, rest)
  | ':' :: rest => some (.colon, rest)
  | ',' :: rest => some (.comma, rest)
  | 'n' :: 'u' :: 'l' :: 'l' :: rest => some (.leaf .null, rest)
  | 't' :: 'r' :: 'u' :: 'e' :: rest => some (.leaf (.bool true), rest)
  | 'f' :: 'a' :: 'l' :: 's' :: 'e' :: rest => some (.leaf (.bool false), rest)
  | _ => none

/-- The token that a text starts with, and the rest. -/
def token? : List Char → Option (Token × List Char)
  | '"' :: rest =>
    (pieces? rest).map fun (pieces, rest) => (.string ((joined? pieces).map String.ofList), rest)
  | text =>
    match mark? text with
    | some found => some found
    | none =>
      match Numeral.scan? text with
      | none => none
      | some (n, rest) => if isNumber n then some (.leaf (ofNumeral n), rest) else none

/-- All tokens of a text. Every token takes at least one character, so a bound of its length is
never reached. -/
def tokens? : (bound : Nat) → List Char → Option (List Token)
  | _, [] => some []
  | 0, _ :: _ => none
  | bound + 1, c :: text =>
    if isSpace c then tokens? bound text
    else match token? (c :: text) with
      | none => none
      | some (token, rest) => (tokens? bound rest).map (token :: ·)

end XmlTemplate.Json
