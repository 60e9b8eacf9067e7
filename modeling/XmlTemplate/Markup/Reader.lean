import XmlTemplate.Markup.Attribute
import XmlTemplate.Markup.Basic

/-!
# Reading documents

The reader follows the events of a text with a stack of the elements that are open. Runs of
text, references and character data next to each other make one run. A problem has the line
of the event that shows it.
-/

namespace XmlTemplate

namespace Markup

/-- An element whose closing tag has not come yet; its content so far, the last piece first. -/
structure OpenElement where
  name : String
  attributes : List (String × String)
  line : Nat
  content : List (Node Element)

/-- What was read of a document so far. -/
structure Builder where
  /-- Open elements, the innermost first. -/
  opened : List OpenElement
  root : Option Element
  /-- Processing instructions, the last one first. -/
  instructions : List String

namespace Builder

/-- A complete element becomes a child of the innermost open element, or the root. -/
def close (e : Element) (b : Builder) : Except Problem Builder :=
  match b.opened with
  | parent :: outer =>
    .ok { b with opened := { parent with content := .child e :: parent.content } :: outer }
  | [] =>
    match b.root with
    | none => .ok { b with root := some e }
    | some _ => .error (.secondRoot e.name)

/-- Add text behind content; it joins a run of text at the end. -/
def addText (text : String) : List (Node Element) → List (Node Element)
  | .text before :: rest => .text (before ++ text) :: rest
  | content => .text text :: content

/-- Text is content of the innermost open element. Outside of the root there may be only blanks. -/
def append (text : List Char) (b : Builder) : Except Problem Builder :=
  match b.opened with
  | parent :: outer =>
    .ok { b with
      opened := { parent with content := addText (String.ofList text) parent.content } :: outer }
  | [] => if text.all Text.isWhiteSpace then .ok b else .error .textOutsideRoot

/-- The builder after an event on a line. -/
def step (line : Nat) (event : Event) (b : Builder) : Except Problem Builder :=
  match event with
  | .text run => b.append run
  | .reference name => b.append ('&' :: name ++ [';'])
  | .cdata text => b.append text
  | .instruction content =>
    .ok { b with instructions := ("<?" ++ String.ofList content ++ "?>") :: b.instructions }
  | .ignored => .ok b
  | .opening body selfClosing =>
    match Attribute.readAll body with
    | .error problem => .error problem
    | .ok attributes =>
      let name := String.ofList (tagName body)
      if selfClosing then b.close ⟨name, attributes, line, true, []⟩
      else .ok { b with opened := ⟨name, attributes, line, []⟩ :: b.opened }
  | .closing name =>
    match b.opened with
    | [] => .error (.unmatchedEnd (String.ofList name))
    | e :: outer =>
      if e.name = String.ofList name then
        close ⟨e.name, e.attributes, e.line, false, e.content.reverse⟩ { b with opened := outer }
      else .error (.mismatchedEnd e.name (String.ofList name))

/-- The document at the end of the text. -/
def finish (b : Builder) : Except Problem Document :=
  match b.opened, b.root with
  | e :: _, _ => .error (.unclosedElement e.name e.line)
  | [], none => .error .noRoot
  | [], some root => .ok ⟨root, b.instructions.reverse⟩

end Builder

/-- The line, from 1, of the place after `bytes` bytes of a text. -/
def lineAfter (bytes : Nat) : List Char → Nat
  | [] => 1
  | c :: rest =>
    if bytes = 0 then 1
    else lineAfter (bytes - c.utf8Size) rest + if c = '\n' then 1 else 0

/-- Read what remains of a document. `lineOf` tells the line of a place by what remains there. -/
def readFrom (lineOf : List Char → Nat) (b : Builder) (text : List Char) :
    Except (Nat × Problem) Document :=
  match text with
  | [] => b.finish.mapError (lineOf [], ·)
  | c :: rest =>
    match _h : Event.next c rest with
    | .error problem => .error (lineOf (c :: rest), problem)
    | .ok (event, after) =>
      match b.step (lineOf (c :: rest)) event with
      | .error problem => .error (lineOf (c :: rest), problem)
      | .ok next => readFrom lineOf next after
termination_by text.length
decreasing_by
  have := Event.length_of_next _h
  simp only [List.length_cons]
  omega

/-- The text without a byte order mark at its start. -/
def withoutMark : List Char → List Char
  | c :: rest => if c = '\ufeff' then rest else c :: rest
  | [] => []

end Markup

/-- The document that a text spells, or a problem and its line. Bytes are counted from the end of
a byte order mark, lines from the start of the text. -/
def Document.read (source : String) : Except (Nat × Markup.Problem) Document :=
  let all := source.toList
  let text := Markup.withoutMark all
  let total := Text.byteSize text
  let lineOf (rest : List Char) := Markup.lineAfter (total - Text.byteSize rest) all
  Markup.readFrom lineOf ⟨[], none, []⟩ text

end XmlTemplate
