import XmlTemplate.Expr.Basic
import XmlTemplate.Expr.Lexer

/-!
# Parsing expressions

The parser reads tokens from left to right with a stack of what is unfinished: signs and
operators that wait for an operand, open parentheses and open calls. An operand takes the
signs in front of it at once. An operator takes all operands to its left that belong to
operators binding at least as tightly. Text in brackets is parsed by the same parser.
-/

namespace XmlTemplate.Expr

/-- The operator that a lexeme stands for between two operands. -/
def binaryOp? : Lexeme → Option BinaryOp
  | .and => some .and
  | .or => some .or
  | .eq => some .eq
  | .ne => some .ne
  | .lt => some .lt
  | .le => some .le
  | .gt => some .gt
  | .ge => some .ge
  | .plus => some .add
  | .minus => some .sub
  | .star => some .mul
  | .div => some .div
  | .mod => some .mod
  | _ => none

/-- The operator that a lexeme stands for before an operand. -/
def unaryOp? : Lexeme → Option UnaryOp
  | .plus => some .plus
  | .minus => some .minus
  | .not => some .not
  | _ => none

/-- Something unfinished that the current operand is part of. -/
inductive Frame where
  | unary (op : UnaryOp)
  | binary (left : Expr) (op : BinaryOp)
  | paren
  /-- A call with the arguments before the current one, the last one first. -/
  | call (name : String) (args : List Expr)

/-- What the parser has in hand. -/
inductive Focus where
  /-- Nothing: an operand has to come, or the parenthesis that ends a call without arguments. -/
  | awaiting (mayClose : Bool)
  | holding (operand : Expr)

structure Parser where
  frames : List Frame
  focus : Focus

namespace Parser

/-- Hold an operand, after the signs in front of it were applied. -/
def complete (operand : Expr) : List Frame → Parser
  | .unary op :: outer => complete (.unary op operand) outer
  | frames => ⟨frames, .holding operand⟩

/-- Apply the waiting operators that bind at least as tightly as `level`. -/
def reduce (level : Nat) (operand : Expr) : List Frame → Expr × List Frame
  | .binary left op :: outer =>
    if level ≤ op.level then reduce level (.binary op left operand) outer
    else (operand, .binary left op :: outer)
  | frames => (operand, frames)

/-- Why an operand may not be followed by what follows it. -/
def problem : List Frame → SyntaxProblem
  | .paren :: _ => .expectedClose
  | .call _ _ :: _ => .expectedCommaOrClose
  | _ => .unexpectedToken

/-- Parse the segments of a path; `inner` parses the text in brackets. -/
def segments (inner : List Char → Nat → Except SyntaxError Expr) :
    List RawSegment → Except SyntaxError (List Segment)
  | [] => .ok []
  | raw :: rest =>
    match (match raw with
      | .root => .ok .root
      | .current => .ok .current
      | .parent => .ok .parent
      | .name key => .ok (.name key)
      | .dynamic source offset => (inner source offset).map .dynamic : Except SyntaxError Segment)
    with
    | .error e => .error e
    | .ok first => (segments inner rest).map (first :: ·)

/-- The operand that a lexeme is on its own; none if it is no operand. -/
def operand? (inner : List Char → Nat → Except SyntaxError Expr) :
    Lexeme → Option (Except SyntaxError Expr)
  | .number n => some (.ok (.literal (.number n)))
  | .string s => some (.ok (.literal (.string s)))
  | .true => some (.ok (.literal (.bool Bool.true)))
  | .false => some (.ok (.literal (.bool Bool.false)))
  | .null => some (.ok (.literal .null))
  | .path raw => some ((segments inner raw).map .path)
  | _ => none

/-- The parser after a lexeme at `offset`. -/
def step (inner : List Char → Nat → Except SyntaxError Expr) (p : Parser) (l : Lexeme)
    (offset : Nat) : Except SyntaxError Parser :=
  match p.focus with
  | .awaiting mayClose =>
    match unaryOp? l with
    | some op => .ok ⟨.unary op :: p.frames, .awaiting Bool.false⟩
    | none =>
      match operand? inner l with
      | some (.ok e) => .ok (complete e p.frames)
      | some (.error e) => .error e
      | none =>
        match l, mayClose, p.frames with
        | .openParen, _, frames => .ok ⟨.paren :: frames, .awaiting Bool.false⟩
        | .function name, _, frames => .ok ⟨.call name [] :: frames, .awaiting Bool.true⟩
        | .closeParen, Bool.true, .call name _ :: outer => .ok (complete (.call name []) outer)
        | _, _, _ => .error ⟨offset, .unexpectedToken⟩
  | .holding operand =>
    match binaryOp? l with
    | some op =>
      let (left, frames) := reduce op.level operand p.frames
      .ok ⟨.binary left op :: frames, .awaiting Bool.false⟩
    | none =>
      let (value, frames) := reduce 0 operand p.frames
      match l, frames with
      | .closeParen, .paren :: outer => .ok (complete value outer)
      | .closeParen, .call name args :: outer =>
        .ok (complete (.call name (value :: args).reverse) outer)
      | .comma, .call name args :: outer =>
        .ok ⟨.call name (value :: args) :: outer, .awaiting Bool.false⟩
      | _, _ => .error ⟨offset, problem frames⟩

/-- The expression at the end of the text, whose offset is `offset`. -/
def finish (p : Parser) (offset : Nat) : Except SyntaxError Expr :=
  match p.focus with
  | .awaiting _ => .error ⟨offset, .unexpectedEnd⟩
  | .holding operand =>
    match reduce 0 operand p.frames with
    | (value, []) => .ok value
    | (_, frames) => .error ⟨offset, problem frames⟩

/-- Read tokens to the end of the text. -/
def run (inner : List Char → Nat → Except SyntaxError Expr) (base endOffset : Nat)
    (p : Parser) : List Token → Except SyntaxError Expr
  | [] => finish p endOffset
  | token :: rest =>
    match step inner p token.lexeme (base + token.offset) with
    | .error e => .error e
    | .ok next => run inner base endOffset next rest

end Parser

/-- Parse a text whose offsets start at `base`. The text in brackets is always shorter than the
text around it. -/
def parseFrom (base : Nat) (source : List Char) : Except SyntaxError Expr :=
  match Token.scan source with
  | .error e => .error (e.shift base)
  | .ok [] => .ok (.literal (.bool false))
  | .ok tokens =>
    let inner (text : List Char) (offset : Nat) : Except SyntaxError Expr :=
      if text.length < source.length then parseFrom (base + offset) text
      else .error ⟨base + offset, .unexpectedEnd⟩
    Parser.run inner base (base + Text.byteSize source) ⟨[], .awaiting false⟩ tokens
termination_by source.length

/-- Parse an expression. The empty expression is false. -/
def parse (source : String) : Except SyntaxError Expr :=
  parseFrom 0 source.toList

end XmlTemplate.Expr
