import XmlTemplate.Yaml.Place

/-!
# YAML tags and anchors

A node may be named by an anchor and typed by a tag. A tag is written in full between angle
brackets, or as a handle and a suffix, where directives say what handles stand for. Parts of a
tag may be written as octets in hexadecimal digits, so that a tag is a list of octets.
-/

namespace XmlTemplate.Yaml

/-- A character of an anchor or of a handle. -/
def isNameChar (c : Char) : Bool := c.isAlphanum || c == '_' || c == '-'

/-- The octets of a text. -/
def octetsOf (text : List Char) : List UInt8 := (String.ofList text).toUTF8.toList

/-- A tag with its handle expanded. -/
structure Tag where
  octets : List UInt8
  deriving Repr, DecidableEq

namespace Tag

/-- A tag of the core types. -/
def core (name : String) : Tag := ⟨("tag:yaml.org,2002:" ++ name).toUTF8.toList⟩

/-- A lone exclamation mark. -/
def nonSpecific : Tag := ⟨octetsOf ['!']⟩

/-- The tag starts with an exclamation mark. -/
def isMarked (t : Tag) : Bool := t.octets.head? == some 33

/-- A tag of the application: a marked one that is a text. -/
def isLocal (t : Tag) : Bool := t.isMarked && (String.fromUTF8? ⟨t.octets.toArray⟩).isSome

end Tag

-- ---------------------------------------------------------------------------
-- Names
-- ---------------------------------------------------------------------------

/-- An anchor's name after its `&` or `*`. -/
def anchorName? (p : Place) : Option (String × Place) :=
  let (name, p) := p.takeWhile isNameChar
  if !name.isEmpty && (p.endsAt 0 || (p.at? 0).any fun c => "?:,]\x7d%@\x60".toList.contains c) then
    some (String.ofList name, p)
  else none

/-- A handle: an exclamation mark, a name, and another exclamation mark if there is one. -/
def handle? (p : Place) : Option (List Char × Place) :=
  if p.isAt '!' 0 then
    let (name, p) := p.next.takeWhile isNameChar
    if p.isAt '!' 0 then some ('!' :: name ++ ['!'], p.next) else some ('!' :: name, p)
  else none

/-- A handle is closed by a second exclamation mark. -/
def isClosed (handle : List Char) : Bool := 2 ≤ handle.length && handle.getLast? == some '!'

-- ---------------------------------------------------------------------------
-- Suffixes
-- ---------------------------------------------------------------------------

/-- A character that stands for itself or, as a percent sign, starts an octet. Commas and square
brackets count only in a tag in full and in a directive. -/
def isTagChar (full : Bool) (c : Char) : Bool :=
  isNameChar c || ";/?:@&=+$.!~*'()%".toList.contains c ||
    (full && (c == ',' || c == '[' || c == ']'))

/-- An octet as a percent sign and two hexadecimal digits. -/
def octet? (p : Place) : Option (UInt8 × Place) :=
  if p.isAt '%' 0 then
    match (p.at? 1).bind Text.hexValue?, (p.at? 2).bind Text.hexValue? with
    | some high, some low => some (UInt8.ofNat (high * 16 + low), p.skip 3)
    | _, _ => none
  else none

/-- Number of octets of a character with a first octet. -/
def octetCount? (first : UInt8) : Option Nat :=
  if first < 0x80 then some 1
  else if first < 0xc0 then none
  else if first < 0xe0 then some 2
  else if first < 0xf0 then some 3
  else if first < 0xf8 then some 4
  else none

/-- So many octets that continue a character. -/
def continuation? : Nat → Place → Option (List UInt8 × Place)
  | 0, p => some ([], p)
  | count + 1, p =>
    match octet? p with
    | none => none
    | some (octet, p) =>
      if 0x80 ≤ octet ∧ octet < 0xc0 then
        (continuation? count p).map fun (octets, p) => (octet :: octets, p)
      else none

/-- The octets of a character. -/
def character? (p : Place) : Option (List UInt8 × Place) :=
  match octet? p with
  | none => none
  | some (first, p) =>
    match octetCount? first with
    | none => none
    | some count => (continuation? (count - 1) p).map fun (octets, p) => (first :: octets, p)

/-- The octets of the tag characters at a place, and whether there is any such character. -/
def suffix? (bound : Nat) (full : Bool) (p : Place) : Option (List UInt8 × Bool × Place) :=
  match bound, p.at? 0 with
  | 0, _ => none
  | _, none => some ([], false, p)
  | bound + 1, some c =>
    if isTagChar full c then
      let taken := if c == '%' then character? p else some (octetsOf [c], p.next)
      match taken with
      | none => none
      | some (octets, p) =>
        (suffix? bound full p).map fun (more, _, p) => (octets ++ more, true, p)
    else some ([], false, p)

/-- The octets before the first that is zero, which ends a tag. -/
def untilZero (octets : List UInt8) : List UInt8 := octets.takeWhile (· != 0)

/-- A suffix of at least one character. -/
def someSuffix? (full : Bool) (p : Place) : Option (List UInt8 × Place) :=
  match suffix? p.rest.length.succ full p with
  | some (octets, true, p) => some (untilZero octets, p)
  | _ => none

-- ---------------------------------------------------------------------------
-- Tags
-- ---------------------------------------------------------------------------

/-- A tag as written: its handle, empty for a tag in full, and its suffix. -/
structure TagName where
  handle : String
  suffix : List UInt8
  deriving Repr, DecidableEq

/-- A tag in full, after its `!<`. -/
def fullTag? (p : Place) : Option (TagName × Place) :=
  match someSuffix? true p with
  | none => none
  | some (suffix, p) => if p.isAt '>' 0 then some (⟨"", suffix⟩, p.next) else none

/-- A tag with a handle. An open handle belongs to the suffix of the handle `!`; nothing after that
handle makes the tag that is a lone exclamation mark. -/
def shortTag? (p : Place) : Option (TagName × Place) :=
  match handle? p with
  | none => none
  | some (handle, p) =>
    if isClosed handle then
      (someSuffix? false p).map fun (suffix, p) => (⟨String.ofList handle, suffix⟩, p)
    else
      (suffix? p.rest.length.succ false p).map fun (more, _, p) =>
        match octetsOf (handle.drop 1) ++ untilZero more with
        | [] => (⟨"", Tag.nonSpecific.octets⟩, p)
        | suffix => (⟨"!", suffix⟩, p)

/-- A tag. A blank must follow it, or a comma between brackets. -/
def tagName? (inFlow : Bool) (p : Place) : Option (TagName × Place) :=
  match if p.isAt '<' 1 then fullTag? (p.skip 2) else shortTag? p with
  | none => none
  | some (name, p) => if p.endsAt 0 || (inFlow && p.isAt ',' 0) then some (name, p) else none

-- ---------------------------------------------------------------------------
-- Directives
-- ---------------------------------------------------------------------------

/-- What a line that starts with a percent sign says about the document after it. -/
inductive Directive where
  | version (major minor : Nat)
  | handle (handle : String) (expansion : List UInt8)
  deriving Repr, DecidableEq

/-- A number of at most nine digits. -/
def shortNumber? (p : Place) : Option (Nat × Place) :=
  let (digits, p) := p.takeWhile Char.isDigit
  if digits.isEmpty || 9 < digits.length then none else some (Text.ofDigits digits, p)

/-- The version in a directive, after blanks. -/
def version? (p : Place) : Option (Directive × Place) :=
  match shortNumber? (p.skipWhile isBlank) with
  | none => none
  | some (major, p) =>
    if p.isAt '.' 0 then
      (shortNumber? p.next).map fun (minor, p) => (.version major minor, p)
    else none

/-- A handle and what it stands for, after blanks. The handle `!` need not be closed. -/
def expansion? (p : Place) : Option (Directive × Place) :=
  match handle? (p.skipWhile isBlank) with
  | none => none
  | some (handle, p) =>
    if (isClosed handle || handle == ['!']) && (p.at? 0).any isBlank then
      match someSuffix? true (p.skipWhile isBlank) with
      | none => none
      | some (suffix, p) =>
        if p.endsAt 0 then some (.handle (String.ofList handle) suffix, p) else none
    else none

/-- A directive after its percent sign, and the start of the next line. -/
def directive? (p : Place) : Option (Directive × Place) :=
  let (name, p) := p.takeWhile isNameChar
  let found :=
    if !p.endsAt 0 then none
    else if name == "YAML".toList then version? p
    else if name == "TAG".toList then expansion? p
    else none
  found.bind fun (directive, p) => p.lineEnd?.map (directive, ·)

end XmlTemplate.Yaml
