import XmlTemplate.Yaml.Place

/-!
# YAML scalars

Reading plain, quoted and block scalars from a place in a text. Line breaks within plain and
quoted scalars are folded: a single one is a space, and of several the first is dropped. The
loops take a bound; the length of the text is always enough, since every round takes a
character.
-/

namespace XmlTemplate.Yaml

/-- Folded line breaks. A separator of lines or paragraphs is no space, even if it comes first. -/
def folded : List Char → List Char
  | ['\n'] => [' ']
  | '\n' :: rest => rest
  | breaks => breaks

/-- Blanks and line breaks up to the next character. -/
structure Gap where
  /-- Blanks on the line, if the line does not end. -/
  blanks : List Char
  /-- What the line breaks stand for. -/
  breaks : List Char
  place : Place

/-- The text that a gap within a scalar stands for. -/
def Gap.text (g : Gap) : List Char := if g.breaks.isEmpty then g.blanks else folded g.breaks

/-- The gap at a place. After a line break there may be no tab before column `indent`. -/
def gap? (bound : Nat) (indent : Int) (blanks breaks : List Char) (p : Place) : Option Gap :=
  match bound, p.rest with
  | 0, _ => none
  | _, [] => some ⟨blanks, breaks, p⟩
  | bound + 1, c :: _ =>
    if isBreak c then gap? bound indent [] (breaks ++ [breakText c]) p.nextLine
    else if isBlank c then
      if breaks.isEmpty then gap? bound indent (blanks ++ [c]) [] p.next
      else if c == '\t' && (p.column : Int) < indent then none
      else gap? bound indent blanks breaks p.next
    else some ⟨blanks, breaks, p⟩

-- ---------------------------------------------------------------------------
-- Plain scalars
-- ---------------------------------------------------------------------------

/-- Characters that have a meaning of their own between brackets. -/
def isFlowMark (c : Char) : Bool :=
  c == ',' || c == '[' || c == ']' || c == '\x7b' || c == '\x7d'

/-- The characters of a plain scalar up to a blank or a mark. -/
def plainRun? (bound : Nat) (inFlow : Bool) (p : Place) : Option (List Char × Place) :=
  match bound, p.rest with
  | 0, _ => none
  | _, [] => some ([], p)
  | bound + 1, c :: _ =>
    if p.endsAt 0 then some ([], p)
    else if inFlow && c == ':' && (p.at? 1).any fun d => isFlowMark d || d == '?' then none
    else if c == ':' && p.endsAt 1 then some ([], p)
    else if inFlow && isFlowMark c then some ([], p)
    else (plainRun? bound inFlow p.next).map fun (run, after) => (c :: run, after)

/-- A plain scalar. The result holds its text, the place after it, and whether that place is the
first one of its line. `indent` is the column that lines of the scalar need. -/
def plain? (bound : Nat) (inFlow : Bool) (indent : Int) (text : List Char) (before : Gap)
    (p : Place) : Option (List Char × Place × Bool) :=
  match bound with
  | 0 => none
  | bound + 1 =>
    if p.atDocumentMark || p.isAt '#' 0 then some (text, p, !before.breaks.isEmpty)
    else
      match plainRun? p.rest.length.succ inFlow p with
      | none => none
      | some ([], _) => some (text, p, !before.breaks.isEmpty)
      | some (run, after) =>
        let text := text ++ before.text ++ run
        if after.rest.isEmpty || !after.endsAt 0 then some (text, after, false)
        else
          match gap? after.rest.length.succ indent [] [] after with
          | none => none
          | some g =>
            if !inFlow && (g.place.column : Int) < indent then
              some (text, g.place, !g.breaks.isEmpty)
            else plain? bound inFlow indent text g g.place

-- ---------------------------------------------------------------------------
-- Quoted scalars
-- ---------------------------------------------------------------------------

/-- The number that `n` hexadecimal digits spell. -/
def hexNumber? (n : Nat) (digits : List Char) : Option Nat :=
  if digits.length < n then none
  else (digits.take n).foldlM (fun value c => (Text.hexValue? c).map (value * 16 + ·)) 0

/-- The character with a code point. -/
def scalar? (code : Nat) : Option Char :=
  if code < 0xd800 ∨ (0xe000 ≤ code ∧ code ≤ 0x10ffff) then some (Char.ofNat code) else none

/-- The character that an escape after a backslash stands for, and the length of the escape. -/
def escape? : List Char → Option (Char × Nat)
  | '0' :: _ => some ('\x00', 1)
  | 'a' :: _ => some ('\x07', 1)
  | 'b' :: _ => some ('\x08', 1)
  | 't' :: _ => some ('\t', 1)
  | '\t' :: _ => some ('\t', 1)
  | 'n' :: _ => some ('\n', 1)
  | 'v' :: _ => some ('\x0b', 1)
  | 'f' :: _ => some ('\x0c', 1)
  | 'r' :: _ => some ('\r', 1)
  | 'e' :: _ => some ('\x1b', 1)
  | ' ' :: _ => some (' ', 1)
  | '"' :: _ => some ('"', 1)
  | '/' :: _ => some ('/', 1)
  | '\\' :: _ => some ('\\', 1)
  | 'N' :: _ => some ('\u0085', 1)
  | '_' :: _ => some ('\u00a0', 1)
  | 'L' :: _ => some ('\u2028', 1)
  | 'P' :: _ => some ('\u2029', 1)
  | 'x' :: digits => ((hexNumber? 2 digits).bind scalar?).map (·, 3)
  | 'u' :: digits => ((hexNumber? 4 digits).bind scalar?).map (·, 5)
  | 'U' :: digits => ((hexNumber? 8 digits).bind scalar?).map (·, 9)
  | _ => none

/-- What remains of a quoted scalar after its opening quote, and the place after the closing one. -/
def quoted? (bound : Nat) (quote : Char) (p : Place) : Option (List Char × Place) :=
  match bound, p.rest with
  | 0, _ => none
  | _, [] => none
  | bound + 1, c :: more =>
    let push (text : List Char) (p : Place) :=
      (quoted? bound quote p).map fun (rest, after) => (text ++ rest, after)
    if p.atDocumentMark then none
    else if isBlank c || isBreak c then
      match gap? p.rest.length.succ 0 [] [] p with
      | none => none
      | some g => push g.text g.place
    else if c == quote then
      if quote == '\'' && more.head? == some '\'' then push ['\''] (p.skip 2) else some ([], p.next)
    else if quote == '"' && c == '\\' then
      if more.head?.any isBreak then
        match gap? p.rest.length.succ 0 [] [] p.next with
        | none => none
        | some g => push (g.breaks.drop 1) g.place
      else
        match escape? more with
        | none => none
        | some (d, length) => push [d] (p.skip (length + 1))
    else push [c] p.next

-- ---------------------------------------------------------------------------
-- Block scalars
-- ---------------------------------------------------------------------------

/-- What becomes of the line breaks at the end of a block scalar. -/
inductive Chomp where
  | strip
  | clip
  | keep
  deriving DecidableEq

/-- The marks after the `|` or `>` of a block scalar: chomping and indentation in any order. -/
def blockMarks? (p : Place) : Option (Chomp × Option Nat × Place) :=
  let chomp? (p : Place) : Option Chomp :=
    if p.isAt '+' 0 then some .keep else if p.isAt '-' 0 then some .strip else none
  let digit? (p : Place) : Option Nat := (p.at? 0).bind fun c =>
    if c.isDigit then some (Text.digitValue c) else none
  let found := match chomp? p with
    | some chomp =>
      match digit? p.next with
      | some n => (chomp, some n, p.skip 2)
      | none => (chomp, none, p.next)
    | none =>
      match digit? p with
      | some n =>
        match chomp? p.next with
        | some chomp => (chomp, some n, p.skip 2)
        | none => (.clip, some n, p.next)
      | none => (.clip, none, p)
  if found.2.1 == some 0 then none else some found

/-- Empty lines of a block scalar and the indentation of the line after them. `indent` is the
column of the scalar, zero while it is unknown. The result holds what the line breaks stand for
and the largest column. -/
def emptyLines? (bound : Nat) (indent : Nat) (breaks : List Char) (widest : Nat) (p : Place) :
    Option (List Char × Nat × Place) :=
  match bound with
  | 0 => none
  | bound + 1 =>
    let spaces := (p.rest.takeWhile (· == ' ')).length
    let p := p.skip (if indent = 0 then spaces else min spaces (indent - p.column))
    let widest := max widest p.column
    if (indent = 0 || p.column < indent) && p.isAt '\t' 0 then none
    else
      match p.at? 0 with
      | some c =>
        if isBreak c then emptyLines? bound indent (breaks ++ [breakText c]) widest p.nextLine
        else some (breaks, widest, p)
      | none => some (breaks, widest, p)

/-- The text of a block scalar as far as its lines were read. -/
structure Block where
  text : List Char
  /-- What the break of the last line stands for. -/
  lineBreak : Option Char
  /-- The breaks of the empty lines after it. -/
  empty : List Char
  /-- The last line starts with a blank. -/
  blank : Bool

/-- What stands between the lines so far and a line that starts with a blank or not. Only a break
between two lines without blanks in front is folded. -/
def Block.joint (literal blank : Bool) (b : Block) : List Char :=
  if !literal && b.lineBreak == some '\n' && !b.blank && !blank then
    if b.empty.isEmpty then [' '] else b.empty
  else b.lineBreak.toList ++ b.empty

/-- The whole text. -/
def Block.finish (chomp : Chomp) (b : Block) : List Char :=
  let last := if chomp == .strip then [] else b.lineBreak.toList
  let more := if chomp == .keep then b.empty else []
  b.text ++ last ++ more

/-- The lines of a block scalar. -/
def blockLines? (bound : Nat) (literal : Bool) (indent : Nat) (b : Block) (p : Place) :
    Option (Block × Place) :=
  match bound with
  | 0 => none
  | bound + 1 =>
    if p.column != indent || p.rest.isEmpty then some (b, p)
    else
      let blank := (p.at? 0).any isBlank
      let (line, p) := p.takeWhile (!isBreak ·)
      let text := b.text ++ b.joint literal blank ++ line
      let lineBreak := (p.at? 0).map breakText
      match emptyLines? p.rest.length.succ indent [] 0
        (if lineBreak.isSome then p.nextLine else p) with
      | none => none
      | some (empty, _, p) => blockLines? bound literal indent ⟨text, lineBreak, empty, blank⟩ p

/-- A block scalar after its `|` or `>`. `parent` is the column of the collection around it. -/
def block? (literal : Bool) (parent : Int) (p : Place) : Option (List Char × Place) :=
  match blockMarks? p with
  | none => none
  | some (chomp, increment, p) =>
    match p.lineEnd? with
    | none => none
    | some p =>
      let known := match increment with
        | some n => if 0 ≤ parent then parent.toNat + n else n
        | none => 0
      match emptyLines? p.rest.length.succ known [] 0 p with
      | none => none
      | some (empty, widest, p) =>
        let indent := if known = 0 then max (max widest (parent + 1).toNat) 1 else known
        (blockLines? p.rest.length.succ literal indent ⟨[], none, empty, false⟩ p).map
          fun (b, p) => (b.finish chomp, p)

end XmlTemplate.Yaml
