/-!
# Syntax errors of expressions
-/

namespace XmlTemplate

/-- What is wrong with the text of an expression. -/
inductive SyntaxProblem where
  | unexpectedCharacter (c : Char)
  /-- A character that only counts with an equals sign after it. -/
  | unexpectedMark (c : Char)
  | unterminatedString
  | unterminatedBracket
  | expectedSegment
  | expectedSegmentAfterSlash
  | unexpectedToken
  | unexpectedEnd
  | expectedClose
  | expectedCommaOrClose
  deriving Repr, DecidableEq

def SyntaxProblem.message : SyntaxProblem → String
  | unexpectedCharacter c => "unexpected character '" ++ c.toString ++ "'"
  | unexpectedMark c => "unexpected '" ++ c.toString ++ "'"
  | unterminatedString => "unterminated string literal"
  | unterminatedBracket => "unterminated '['"
  | expectedSegment => "expected a path segment"
  | expectedSegmentAfterSlash => "expected a path segment after '/'"
  | unexpectedToken => "unexpected token"
  | unexpectedEnd => "unexpected end of expression"
  | expectedClose => "expected ')'"
  | expectedCommaOrClose => "expected ',' or ')'"

/-- A problem and the byte offset of the place where it shows. -/
structure SyntaxError where
  offset : Nat
  problem : SyntaxProblem
  deriving Repr, DecidableEq

namespace SyntaxError

/-- The same problem in a text that `base` bytes were put in front of. -/
def shift (base : Nat) (e : SyntaxError) : SyntaxError := { e with offset := e.offset + base }

/-- The problem with its offset. -/
def text (e : SyntaxError) : String :=
  e.problem.message ++ " at offset " ++ toString e.offset

end SyntaxError

end XmlTemplate
