import XmlTemplate.Yaml.Scalar
import XmlTemplate.Yaml.Tag

/-!
# YAML tokens

Indentation becomes tokens too: a collection in block style starts where a key or a dash comes
at a deeper column than the collection around it, and it ends where the column goes back. A
scalar turns out to be a key only when a colon follows it on its line, so the place of a
possible key is remembered until then.
-/

namespace XmlTemplate.Yaml

inductive Token where
  | blockSequence
  | blockMapping
  | blockEnd
  | flowSequence
  | flowSequenceEnd
  | flowMapping
  | flowMappingEnd
  | entry
  | flowEntry
  | key
  | value
  /-- A scalar; plain ones may stand for other things than text. -/
  | scalar (text : String) (plain : Bool)
  | anchor (name : String)
  /-- The anchor of an earlier node in its place. -/
  | reference (name : String)
  | tag (name : TagName)
  | directive (directive : Directive)
  | documentStart
  | documentEnd
  deriving Repr, DecidableEq

/-- A place where a key may have started. -/
structure PossibleKey where
  /-- Without a colon the text is malformed. -/
  required : Bool
  /-- Number of tokens before it. -/
  position : Nat
  line : Nat
  column : Nat
  index : Nat

structure Scanner where
  place : Place
  /-- Columns of the open block collections, the innermost first. -/
  indents : List Nat
  /-- A key may start here. -/
  keyAllowed : Bool
  /-- The possible key of each level of brackets, the innermost first. -/
  keys : List (Option PossibleKey)
  tokens : Array Token

namespace Scanner

/-- The scanner is within brackets. -/
def inFlow (s : Scanner) : Bool := 1 < s.keys.length

/-- Column of the innermost block collection; `-1` outside of all. -/
def indent (s : Scanner) : Int :=
  match s.indents with
  | column :: _ => column
  | [] => -1

def push (token : Token) (s : Scanner) : Scanner := { s with tokens := s.tokens.push token }

/-- Take a mark of `n` characters as a token. -/
def pushMark (n : Nat) (token : Token) (s : Scanner) : Scanner :=
  { s.push token with place := s.place.skip n }

/-- Close the block collections that are deeper than a column. -/
def close (column : Int) (s : Scanner) : Scanner :=
  if s.inFlow then s
  else
    let deeper := s.indents.takeWhile fun (c : Nat) => column < c
    { s with
      indents := s.indents.drop deeper.length
      tokens := s.tokens ++ (deeper.map fun _ => Token.blockEnd) }

/-- Open a block collection at a column, if it is deeper than the one around it. Its token goes to a
position among the tokens. -/
def openBlock (column position : Nat) (token : Token) (s : Scanner) : Scanner :=
  if s.inFlow || (column : Int) ≤ s.indent then s
  else { s with
    indents := column :: s.indents
    tokens := (s.tokens.toList.insertIdx position token).toArray }

/-- Give up the possible key of the innermost level; malformed if it was required. -/
def dropKey (s : Scanner) : Option Scanner :=
  match s.keys with
  | some key :: outer => if key.required then none else some { s with keys := none :: outer }
  | _ => some s

/-- Give up the possible keys that are not on this line or too far back. -/
def dropStaleKeys (s : Scanner) : Option Scanner :=
  let stale (key : PossibleKey) : Bool :=
    key.line < s.place.line || key.index + 1024 < s.place.index
  if s.keys.any fun key => key.any fun key => key.required && stale key then none
  else some { s with keys := s.keys.map (·.filter (!stale ·)) }

/-- Remember that a key may start here. -/
def saveKey (s : Scanner) : Option Scanner :=
  if s.keyAllowed then
    let required := !s.inFlow && s.indent == s.place.column
    (dropKey s).map fun s =>
      { s with
        keys := some ⟨required, s.tokens.size, s.place.line, s.place.column, s.place.index⟩
          :: s.keys.drop 1 }
  else some s

/-- Skip blanks, comments and line breaks. Tabs count as blanks only where no key may start. A byte
order mark may start a line and counts as a column. -/
def skipGap (bound : Nat) (s : Scanner) : Scanner :=
  match bound, s.place.rest with
  | 0, _ => s
  | _, [] => s
  | bound + 1, c :: _ =>
    if c == '\ufeff' && s.place.column == 0 then
      skipGap bound { s with place := s.place.next }
    else if c == ' ' || (c == '\t' && (s.inFlow || !s.keyAllowed)) then
      skipGap bound { s with place := s.place.next }
    else if c == '#' then
      skipGap bound { s with place := s.place.skipWhile (!isBreak ·) }
    else if isBreak c then
      skipGap bound
        { s with place := s.place.nextLine, keyAllowed := s.keyAllowed || !s.inFlow }
    else s

-- ---------------------------------------------------------------------------
-- Marks
-- ---------------------------------------------------------------------------

/-- `---` or `...`. -/
def documentMark (token : Token) (s : Scanner) : Option Scanner :=
  (dropKey (s.close (-1))).map fun s => { s.pushMark 3 token with keyAllowed := false }

/-- A line that starts with a percent sign. -/
def directive (s : Scanner) : Option Scanner :=
  match dropKey (s.close (-1)), directive? s.place.next with
  | some s, some (directive, place) =>
    some { s.push (.directive directive) with place := place, keyAllowed := false }
  | _, _ => none

def openFlow (token : Token) (s : Scanner) : Option Scanner :=
  (saveKey s).map fun s =>
    { s.pushMark 1 token with keys := none :: s.keys, keyAllowed := true }

def closeFlow (token : Token) (s : Scanner) : Option Scanner :=
  (dropKey s).map fun s =>
    { s.pushMark 1 token with
      keys := if s.inFlow then s.keys.drop 1 else s.keys
      keyAllowed := false }

def flowEntry (s : Scanner) : Option Scanner :=
  (dropKey s).map fun s => { s.pushMark 1 .flowEntry with keyAllowed := true }

/-- A dash before an item. -/
def entry (s : Scanner) : Option Scanner :=
  if !s.inFlow && !s.keyAllowed then none
  else
    let s := s.openBlock s.place.column s.tokens.size .blockSequence
    (dropKey s).map fun s => { s.pushMark 1 .entry with keyAllowed := true }

/-- A question mark before a key. -/
def explicitKey (s : Scanner) : Option Scanner :=
  if !s.inFlow && !s.keyAllowed then none
  else
    let s := s.openBlock s.place.column s.tokens.size .blockMapping
    (dropKey s).map fun s => { s.pushMark 1 .key with keyAllowed := !s.inFlow }

/-- A colon before a value. It makes a key of what started at the possible key, if there is one. -/
def value (s : Scanner) : Option Scanner :=
  match s.keys with
  | some key :: outer =>
    let s := { s with
      tokens := (s.tokens.toList.insertIdx key.position .key).toArray
      keys := none :: outer }
    let s := s.openBlock key.column key.position .blockMapping
    some { s.pushMark 1 .value with keyAllowed := false }
  | _ =>
    if !s.inFlow && !s.keyAllowed then none
    else
      let s := s.openBlock s.place.column s.tokens.size .blockMapping
      some { s.pushMark 1 .value with keyAllowed := !s.inFlow }

-- ---------------------------------------------------------------------------
-- Properties and scalars
-- ---------------------------------------------------------------------------

/-- Take an anchor, a reference or a tag. It starts the node that may turn out to be a key. -/
def property (taken : Option (Token × Place)) (s : Scanner) : Option Scanner :=
  match saveKey s, taken with
  | some s, some (token, place) => some { s.push token with place := place, keyAllowed := false }
  | _, _ => none

def anchor (s : Scanner) : Option Scanner :=
  s.property ((anchorName? s.place.next).map fun (name, place) => (.anchor name, place))

def reference (s : Scanner) : Option Scanner :=
  s.property ((anchorName? s.place.next).map fun (name, place) => (.reference name, place))

def tag (s : Scanner) : Option Scanner :=
  s.property ((tagName? s.inFlow s.place).map fun (name, place) => (.tag name, place))

def blockScalar (literal : Bool) (s : Scanner) : Option Scanner :=
  match dropKey s with
  | none => none
  | some s =>
    (block? literal s.indent s.place.next).map fun (text, place) =>
      { s.push (.scalar (String.ofList text) false) with place := place, keyAllowed := true }

def quotedScalar (quote : Char) (s : Scanner) : Option Scanner :=
  match saveKey s with
  | none => none
  | some s =>
    (quoted? s.place.rest.length.succ quote s.place.next).map fun (text, place) =>
      { s.push (.scalar (String.ofList text) false) with place := place, keyAllowed := false }

def plainScalar (s : Scanner) : Option Scanner :=
  match saveKey s with
  | none => none
  | some s =>
    let p := s.place
    (plain? p.rest.length.succ s.inFlow (s.indent + 1) [] ⟨[], [], p⟩ p).map
      fun (text, place, newLine) =>
        { s.push (.scalar (String.ofList text) true) with place := place, keyAllowed := newLine }

/-- A character with a meaning that keeps it from starting a plain scalar. -/
def isIndicator (c : Char) : Bool :=
  "-?:,[]\x7b\x7d#&*!|>'\"%@\x60".toList.contains c

/-- A plain scalar starts here. -/
def startsPlain (s : Scanner) : Bool :=
  (s.place.at? 0).any fun c =>
    (!s.place.endsAt 0 && !isIndicator c)
      || (c == '-' && !(s.place.at? 1).any isBlank)
      || (!s.inFlow && (c == '?' || c == ':') && !s.place.endsAt 1)

-- ---------------------------------------------------------------------------
-- Tokens
-- ---------------------------------------------------------------------------

/-- Take the token at a place with at least one character. -/
def fetch (s : Scanner) (c : Char) : Option Scanner :=
  let p := s.place
  let indicates := s.inFlow || p.endsAt 1
  if c == '%' && p.column == 0 then s.directive
  else if p.atDocumentMark then
    documentMark (if c == '-' then .documentStart else .documentEnd) s
  else if c == '[' then s.openFlow .flowSequence
  else if c == '\x7b' then s.openFlow .flowMapping
  else if c == ']' then s.closeFlow .flowSequenceEnd
  else if c == '\x7d' then s.closeFlow .flowMappingEnd
  else if c == ',' then s.flowEntry
  else if c == '-' && p.endsAt 1 then s.entry
  else if c == '?' && indicates then s.explicitKey
  else if c == ':' && indicates then s.value
  else if c == '*' then s.reference
  else if c == '&' then s.anchor
  else if c == '!' then s.tag
  else if c == '|' && !s.inFlow then s.blockScalar true
  else if c == '>' && !s.inFlow then s.blockScalar false
  else if c == '\'' || c == '"' then s.quotedScalar c
  else if s.startsPlain then s.plainScalar
  else none

/-- Take all tokens. Every round takes at least one character. -/
def run (bound : Nat) (s : Scanner) : Option (List Token) :=
  match bound with
  | 0 => none
  | bound + 1 =>
    match dropStaleKeys (skipGap s.place.rest.length.succ s) with
    | none => none
    | some s =>
      let s := s.close s.place.column
      match s.place.rest with
      | [] => (dropKey (s.close (-1))).map (·.tokens.toList)
      | c :: _ =>
        match s.fetch c with
        | none => none
        | some s => run bound s

end Scanner

/-- Characters that a text may hold. -/
def isAllowed (c : Char) : Bool :=
  let n := c.toNat
  n == 9 || n == 10 || n == 13 || (0x20 ≤ n && n ≤ 0x7e) || n == 0x85
    || (0xa0 ≤ n && n ≤ 0xfffd)
    || 0x10000 ≤ n

/-- The tokens of a text; none if it is malformed. -/
def tokens? (text : List Char) : Option (List Token) :=
  if text.all isAllowed then
    Scanner.run text.length.succ ⟨.start text, [], true, [none], #[]⟩
  else none

end XmlTemplate.Yaml
