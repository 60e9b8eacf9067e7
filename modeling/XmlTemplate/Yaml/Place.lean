import XmlTemplate.Text.Basic

/-!
# Places in a YAML text

A place knows what remains of the text, its line and column, and the number of bytes before it.
-/

namespace XmlTemplate.Yaml

/-- A character that ends a line. -/
def isBreak (c : Char) : Bool :=
  c == '\n' || c == '\r' || c == '\u0085' || c == '\u2028' || c == '\u2029'

/-- What a line break stands for in a scalar. The separators of lines and of paragraphs stay. -/
def breakText (c : Char) : Char := if c == '\u2028' || c == '\u2029' then c else '\n'

def isBlank (c : Char) : Bool := c == ' ' || c == '\t'

/-- A place in a text. -/
structure Place where
  rest : List Char
  line : Nat
  column : Nat
  /-- Number of bytes before it. -/
  index : Nat

namespace Place

/-- The start of a text. -/
def start (text : List Char) : Place := ⟨text, 0, 0, 0⟩

/-- The character `n` places on. -/
def at? (n : Nat) (p : Place) : Option Char := p.rest[n]?

/-- The character `n` places on is `c`. -/
def isAt (c : Char) (n : Nat) (p : Place) : Bool := p.at? n == some c

/-- The character `n` places on is a blank or a line break, or the text ends there. -/
def endsAt (n : Nat) (p : Place) : Bool := (p.at? n).all fun c => isBlank c || isBreak c

/-- The place after `n` characters of the line. -/
def skip (n : Nat) (p : Place) : Place :=
  { p with
    rest := p.rest.drop n
    column := p.column + n
    index := p.index + Text.byteSize (p.rest.take n) }

/-- The place after one character of the line. -/
def next (p : Place) : Place := p.skip 1

/-- The characters up to the first that does not satisfy `test`, and the place after them. -/
def takeWhile (test : Char → Bool) (p : Place) : List Char × Place :=
  let run := p.rest.takeWhile test
  (run, p.skip run.length)

/-- The place after the characters that satisfy `test`. -/
def skipWhile (test : Char → Bool) (p : Place) : Place := (p.takeWhile test).2

/-- The start of the next line. A carriage return and the line feed after it are one break. -/
def nextLine (p : Place) : Place :=
  match p.rest with
  | '\r' :: '\n' :: rest => ⟨rest, p.line + 1, 0, p.index + 2⟩
  | c :: rest => ⟨rest, p.line + 1, 0, p.index + c.utf8Size⟩
  | [] => p

/-- A document starts or ends here. -/
def atDocumentMark (p : Place) : Bool :=
  p.column == 0 && (p.rest.take 3 == ['-', '-', '-'] || p.rest.take 3 == ['.', '.', '.'])
    && p.endsAt 3

/-- The start of the next line, when nothing but blanks and a comment is left on this one. -/
def lineEnd? (p : Place) : Option Place :=
  let p := p.skipWhile isBlank
  let p := if p.isAt '#' 0 then p.skipWhile (!isBreak ·) else p
  match p.rest with
  | [] => some p
  | c :: _ => if isBreak c then some p.nextLine else none

end Place

end XmlTemplate.Yaml
