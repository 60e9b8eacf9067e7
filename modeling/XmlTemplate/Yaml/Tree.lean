import XmlTemplate.Table
import XmlTemplate.Yaml.Token

/-!
# YAML trees

The tree that the tokens of a document spell. Anchors are numbered in the order of the text, and
a reference holds the number that its name has where it stands.
-/

namespace XmlTemplate

/-- A node of a YAML document. -/
inductive Yaml where
  /-- A scalar; plain ones may stand for other things than text. -/
  | scalar (tag : Option Yaml.Tag) (text : String) (plain : Bool)
  | sequence (tag : Option Yaml.Tag) (items : List Yaml)
  | mapping (tag : Option Yaml.Tag) (entries : List (Yaml × Yaml))
  /-- A node that references lead to. -/
  | anchored (number : Nat) (node : Yaml)
  | reference (number : Nat)
  deriving Inhabited

namespace Yaml

/-- Nothing where a node may come. -/
def nothing : Yaml := scalar none "" true

-- ---------------------------------------------------------------------------
-- Trees of tokens
-- ---------------------------------------------------------------------------

/-- The tokens to come, and what is known from those before. -/
structure Parser where
  rest : List Token
  /-- What the handles of tags stand for. -/
  handles : Table (List UInt8)
  /-- Numbers of the anchors. -/
  anchors : Table Nat

namespace Parser

/-- The next token is one of these, or there is none. -/
def isAt (stops : List Token) (s : Parser) : Bool :=
  match s.rest with
  | token :: _ => stops.contains token
  | [] => true

/-- The tag of a name; none if its handle is unknown. -/
def tag? (name : TagName) (s : Parser) : Option Tag :=
  if name.handle == "" then some ⟨name.suffix⟩
  else (s.handles.get? name.handle).map fun expansion => ⟨expansion ++ name.suffix⟩

/-- The anchor and the tag in front of a node, in any order. -/
def properties? (s : Parser) : Option (Option String × Option Tag × Parser) :=
  let tagged (anchor : Option String) (name : TagName) (rest : List Token) :=
    (s.tag? name).map fun tag => (anchor, some tag, { s with rest })
  match s.rest with
  | .anchor anchor :: .tag name :: rest => tagged (some anchor) name rest
  | .anchor anchor :: rest => some (some anchor, none, { s with rest })
  | .tag name :: .anchor anchor :: rest => tagged (some anchor) name rest
  | .tag name :: rest => tagged none name rest
  | _ => some (none, none, s)

/-- Number an anchor. The number of a new name is the count of the names before it; so is that of a
name that is there already, which may give two names one number. -/
def define (anchor : String) (s : Parser) : Nat × Parser :=
  (s.anchors.length, { s with anchors := s.anchors.put anchor s.anchors.length })

end Parser

mutual

/-- A node. Block collections are allowed unless it is within brackets, and a dash may start one
without further indentation where `indentless`. -/
def node? (bound : Nat) (block indentless : Bool) (s : Parser) : Option (Yaml × Parser) :=
  match bound, s.rest with
  | 0, _ => none
  | _, .reference name :: rest =>
    (s.anchors.get? name).map fun number => (.reference number, { s with rest })
  | bound + 1, _ =>
    match s.properties? with
    | none => none
    | some (none, tag, s) => content? bound block indentless tag tag.isSome s
    | some (some anchor, tag, s) =>
      let (number, s) := s.define anchor
      (content? bound block indentless tag true s).map fun (node, s) => (.anchored number node, s)

/-- The content of a node with a tag or without. A node with properties may be empty. -/
def content? (bound : Nat) (block indentless : Bool) (tag : Option Tag) (mayBeEmpty : Bool)
    (s : Parser) : Option (Yaml × Parser) :=
  let orEmpty := if mayBeEmpty then some (.scalar tag "" true, s) else none
  match bound, s.rest with
  | 0, _ => none
  | bound + 1, .entry :: _ =>
    if indentless then (dashes? bound s).map fun (items, s) => (.sequence tag items, s)
    else orEmpty
  | _ + 1, .scalar text plain :: rest =>
    some (.scalar (if tag == some Tag.nonSpecific then none else tag) text plain, { s with rest })
  | bound + 1, .flowSequence :: rest =>
    (flowItems? bound true { s with rest }).map fun (items, s) => (.sequence tag items, s)
  | bound + 1, .flowMapping :: rest =>
    (flowEntries? bound true { s with rest }).map fun (entries, s) => (.mapping tag entries, s)
  | bound + 1, .blockSequence :: rest =>
    if block then (items? bound { s with rest }).map fun (items, s) => (.sequence tag items, s)
    else orEmpty
  | bound + 1, .blockMapping :: rest =>
    if block then
      (entries? bound { s with rest }).map fun (entries, s) => (.mapping tag entries, s)
    else orEmpty
  | _ + 1, _ => orEmpty

/-- A node, or nothing before one of the tokens in `stops`. -/
def nodeOrNothing? (bound : Nat) (block indentless : Bool) (stops : List Token) (s : Parser) :
    Option (Yaml × Parser) :=
  match bound with
  | 0 => none
  | bound + 1 => if s.isAt stops then some (nothing, s) else node? bound block indentless s

/-- The value after a key, if there is one. -/
def value? (bound : Nat) (block indentless : Bool) (stops : List Token) (s : Parser) :
    Option (Yaml × Parser) :=
  match bound, s.rest with
  | 0, _ => none
  | bound + 1, .value :: rest => nodeOrNothing? bound block indentless stops { s with rest }
  | _, _ => some (nothing, s)

/-- Items of a block sequence up to its end. -/
def items? (bound : Nat) (s : Parser) : Option (List Yaml × Parser) :=
  match bound, s.rest with
  | 0, _ => none
  | bound + 1, .entry :: rest =>
    match nodeOrNothing? bound true false [.entry, .blockEnd] { s with rest } with
    | none => none
    | some (item, s) => (items? bound s).map fun (items, s) => (item :: items, s)
  | _, .blockEnd :: rest => some ([], { s with rest })
  | _, _ => none

/-- Items of a sequence without indentation of its own. -/
def dashes? (bound : Nat) (s : Parser) : Option (List Yaml × Parser) :=
  match bound, s.rest with
  | 0, _ => none
  | bound + 1, .entry :: rest =>
    match nodeOrNothing? bound true false [.entry, .key, .value, .blockEnd] { s with rest } with
    | none => none
    | some (item, s) => (dashes? bound s).map fun (items, s) => (item :: items, s)
  | _, _ => some ([], s)

/-- Entries of a block mapping up to its end. -/
def entries? (bound : Nat) (s : Parser) : Option (List (Yaml × Yaml) × Parser) :=
  let stops := [.key, .value, .blockEnd]
  match bound, s.rest with
  | 0, _ => none
  | bound + 1, .key :: rest =>
    match nodeOrNothing? bound true true stops { s with rest } with
    | none => none
    | some (key, s) =>
      match value? bound true true stops s with
      | none => none
      | some (value, s) => (entries? bound s).map fun (entries, s) => ((key, value) :: entries, s)
  | _, .blockEnd :: rest => some ([], { s with rest })
  | _, _ => none

/-- The key of an item between brackets. The token after a key that is nothing is lost. -/
def itemKey? (bound : Nat) (s : Parser) : Option (Yaml × Parser) :=
  match bound, s.rest with
  | 0, _ => none
  | _ + 1, .value :: rest => some (nothing, { s with rest })
  | _ + 1, .flowEntry :: rest => some (nothing, { s with rest })
  | _ + 1, .flowSequenceEnd :: rest => some (nothing, { s with rest })
  | bound + 1, _ => node? bound false false s

/-- Items between brackets up to the closing one. A key makes a mapping of one entry. -/
def flowItems? (bound : Nat) (first : Bool) (s : Parser) : Option (List Yaml × Parser) :=
  match bound, first, s.rest with
  | 0, _, _ => none
  | _, _, .flowSequenceEnd :: rest => some ([], { s with rest })
  | _, false, .flowEntry :: .flowSequenceEnd :: rest => some ([], { s with rest })
  | bound + 1, false, .flowEntry :: rest => flowItems? bound true { s with rest }
  | bound + 1, true, .key :: rest =>
    match itemKey? bound { s with rest } with
    | none => none
    | some (key, s) =>
      match value? bound false false [.flowEntry, .flowSequenceEnd] s with
      | none => none
      | some (value, s) =>
        (flowItems? bound false s).map
          fun (items, s) => (.mapping none [(key, value)] :: items, s)
  | bound + 1, true, _ =>
    match node? bound false false s with
    | none => none
    | some (item, s) => (flowItems? bound false s).map fun (items, s) => (item :: items, s)
  | _, false, _ => none

/-- Entries between braces up to the closing one. A node without a colon is a key without value. -/
def flowEntries? (bound : Nat) (first : Bool) (s : Parser) :
    Option (List (Yaml × Yaml) × Parser) :=
  match bound, first, s.rest with
  | 0, _, _ => none
  | _, _, .flowMappingEnd :: rest => some ([], { s with rest })
  | bound + 1, false, .flowEntry :: rest => flowEntries? bound true { s with rest }
  | bound + 1, true, .key :: rest =>
    match nodeOrNothing? bound false false [.value, .flowEntry, .flowMappingEnd]
      { s with rest } with
    | none => none
    | some (key, s) =>
      match value? bound false false [.flowEntry, .flowMappingEnd] s with
      | none => none
      | some (value, s) =>
        (flowEntries? bound false s).map fun (entries, s) => ((key, value) :: entries, s)
  | bound + 1, true, _ =>
    match node? bound false false s with
    | none => none
    | some (key, s) =>
      (flowEntries? bound false s).map fun (entries, s) => ((key, nothing) :: entries, s)
  | _, false, _ => none

end

-- ---------------------------------------------------------------------------
-- Documents
-- ---------------------------------------------------------------------------

/-- What handles stand for in every document that does not say otherwise. -/
def coreHandles : Table (List UInt8) := [("!", octetsOf ['!']), ("!!", (Tag.core "").octets)]

/-- The handles that directives define; none if the directives are not valid together. There may be
one version, 1.1 or 1.2, and one line for each handle. -/
def handles? (directives : List Directive) : Option (Table (List UInt8)) :=
  let versions := directives.filterMap fun
    | .version major minor => some (major, minor)
    | .handle _ _ => none
  let handles := directives.filterMap fun
    | .handle handle expansion => some (handle, expansion)
    | .version _ _ => none
  if versions.length ≤ 1 && versions.all (fun v => v == (1, 1) || v == (1, 2))
    && (Table.keys handles).Nodup then
    some (handles ++ coreHandles)
  else none

/-- The content of the document that tokens start with, and the tokens after it. Directives need a
mark before the content. -/
def document? (bound : Nat) (tokens : List Token) : Option (Yaml × List Token) :=
  let directive? : Token → Option Directive
    | .directive d => some d
    | _ => none
  let directives := (tokens.takeWhile fun token => (directive? token).isSome).filterMap directive?
  match handles? directives, tokens.drop directives.length with
  | none, _ => none
  | some _, [] => if directives.isEmpty then some (nothing, []) else none
  | some handles, .documentStart :: rest =>
    let s : Parser := ⟨rest, handles, []⟩
    let atMark := match rest with
      | .directive _ :: _ => true
      | _ => s.isAt [.documentStart, .documentEnd]
    if atMark then some (nothing, rest)
    else (node? bound true false s).map fun (node, s) => (node, s.rest)
  | some handles, tokens =>
    if directives.isEmpty then
      (node? bound true false ⟨tokens, handles, []⟩).map fun (node, s) => (node, s.rest)
    else none

/-- The only document of a text; an empty text is nothing. -/
def read? (text : String) : Option Yaml :=
  match tokens? text.toList with
  | none => none
  | some tokens =>
    match document? (4 * tokens.length + 4) tokens with
    | none => none
    | some (root, rest) => if rest.all (· == .documentEnd) then some root else none

end Yaml

end XmlTemplate
