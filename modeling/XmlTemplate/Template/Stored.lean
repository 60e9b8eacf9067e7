import XmlTemplate.Expr.Stored
import XmlTemplate.Template.Tag

/-!
# Stored form of templates

Templates as JSON trees. Structures are objects with all their fields, and missing options are
null. `Template.ofDraft?` reads what `Template.toJson` writes; it takes structures written as
arrays of their fields as well.
-/

namespace XmlTemplate

/-- Largest natural number that is stored. -/
def maxStored : Nat := Number.wordSize - 1

namespace Directive

def toJson (d : Directive) : Json :=
  .object [("source", .string d.source), ("expr", d.expr.toJson)]

def ofDraft? (d : Json.Draft) : Option Directive := do
  let fields ← d.record? ["source", "expr"]
  let source ← Json.Draft.required? fields "source" Json.Draft.string?
  let expr ← Json.Draft.required? fields "expr" Expr.ofDraft?
  return ⟨source, expr⟩

end Directive

namespace Directives

def toJson (d : Directives) : Json :=
  let expr := Json.ofOption Directive.toJson
  let name := Json.ofOption Json.string
  .object [
    ("walk", expr d.walk), ("cond", expr d.cond), ("text", expr d.text), ("mute", expr d.mute),
    ("void", expr d.void), ("auto", expr d.auto), ("append", expr d.append),
    ("macro_name", name d.macroName), ("call", name d.call), ("slot", name d.slot),
    ("plug", name d.plug), ("filter", name d.filter)]

/-- Names of the fields. -/
def names : List String :=
  ["walk", "cond", "text", "mute", "void", "auto", "append", "macro_name", "call", "slot", "plug",
    "filter"]

def ofDraft? (d : Json.Draft) : Option Directives := do
  let fields ← d.record? names
  let expr (key : String) := Json.Draft.missing? fields key Directive.ofDraft?
  let name (key : String) := Json.Draft.missing? fields key Json.Draft.string?
  return {
    walk := ← expr "walk", cond := ← expr "cond", text := ← expr "text", mute := ← expr "mute",
    void := ← expr "void", auto := ← expr "auto", append := ← expr "append",
    macroName := ← name "macro_name", call := ← name "call", slot := ← name "slot",
    plug := ← name "plug", filter := ← name "filter" }

end Directives

namespace TagKind

def toJson : TagKind → Json
  | element => .string "Element"
  | control => .string "Control"
  | inclusion file => .ofCase "Include" (.object [("file", .string file)])
  | verbatim file => .ofCase "CData" (.object [("file", .string file)])
  | attr name value =>
    .ofCase "Attr" (.object [("name", .string name), ("value", .ofOption Directive.toJson value)])
  | param name value =>
    .ofCase "Param" (.object [("name", .string name), ("value", .ofOption Directive.toJson value)])
  | feed feedClass target =>
    .ofCase "Feed"
      (.object [("class", .string feedClass), ("target", .ofOption .string target)])
  | dictionary file name source =>
    .ofCase "Dictionary"
      (.object [("file", .string file), ("name", .ofOption .string name),
        ("source", .ofOption .string source)])
  | mount target value =>
    .ofCase "Mount"
      (.object [("target", .string target), ("value", .ofOption Directive.toJson value)])
  | trans key dict source =>
    .ofCase "Trans"
      (.object [("key", .ofOption .string key), ("dict", .ofOption .string dict),
        ("source", .ofOption .string source)])

/-- Names of the fields of a kind. -/
def names : String → List String
  | "Include" => ["file"]
  | "CData" => ["file"]
  | "Attr" => ["name", "value"]
  | "Param" => ["name", "value"]
  | "Feed" => ["class", "target"]
  | "Dictionary" => ["file", "name", "source"]
  | "Mount" => ["target", "value"]
  | "Trans" => ["key", "dict", "source"]
  | _ => []

def ofDraft? (d : Json.Draft) : Option TagKind := do
  let (name, content) ← d.case?
  match name, content with
  | "Element", .null => return element
  | "Control", .null => return control
  | _, _ =>
    let fields ← content.record? (names name)
    let text (key : String) := Json.Draft.required? fields key Json.Draft.string?
    let name? (key : String) := Json.Draft.missing? fields key Json.Draft.string?
    let expr? (key : String) := Json.Draft.missing? fields key Directive.ofDraft?
    match name with
    | "Include" => return inclusion (← text "file")
    | "CData" => return verbatim (← text "file")
    | "Attr" => return attr (← text "name") (← expr? "value")
    | "Param" => return param (← text "name") (← expr? "value")
    | "Feed" => return feed (← text "class") (← name? "target")
    | "Dictionary" => return dictionary (← text "file") (← name? "name") (← name? "source")
    | "Mount" => return mount (← text "target") (← expr? "value")
    | "Trans" => return trans (← name? "key") (← name? "dict") (← name? "source")
    | _ => none

end TagKind

/-- A pair of texts as an array of two. -/
def pairToJson : String × String → Json
  | (a, b) => .array [.string a, .string b]

def pairOfDraft? : Json.Draft → Option (String × String)
  | .array [.string a, .string b] => some (a, b)
  | _ => none

mutual

def Tag.toJson : Tag → Json
  | ⟨id, name, line, kind, attributes, directives, children, selfClosing, indent⟩ =>
    .object [
      ("id", .int id), ("name", .string name), ("line", .int line), ("kind", kind.toJson),
      ("attributes", .array (attributes.map pairToJson)), ("directives", directives.toJson),
      ("children", .array (Tag.contentToJson children)), ("self_closing", .bool selfClosing),
      ("indent", .ofOption .string indent)]

def Tag.contentToJson : List (Node Tag) → List Json
  | [] => []
  | .text text :: rest => .ofCase "Text" (.string text) :: Tag.contentToJson rest
  | .child tag :: rest => .ofCase "Tag" tag.toJson :: Tag.contentToJson rest

end

/-- Names of the fields of a tag. -/
def Tag.names : List String :=
  ["id", "name", "line", "kind", "attributes", "directives", "children", "self_closing", "indent"]

mutual

def Tag.ofDraft? (d : Json.Draft) : Option Tag :=
  match _hf : d.record? Tag.names with
  | none => none
  | some fields =>
    match _hc : fields.get? "children" with
    | none => none
    | some children =>
      match _hi : children.items? with
      | none => none
      | some items => do
        let id ← Json.Draft.required? fields "id" (Json.Draft.nat? maxStored)
        let name ← Json.Draft.required? fields "name" Json.Draft.string?
        let line ← Json.Draft.required? fields "line" (Json.Draft.nat? maxStored)
        let kind ← Json.Draft.required? fields "kind" TagKind.ofDraft?
        let attributes ← Json.Draft.required? fields "attributes" Json.Draft.items?
        let attributes ← attributes.mapM pairOfDraft?
        let directives ← Json.Draft.required? fields "directives" Directives.ofDraft?
        let children ← Tag.contentOfDraft? items
        let selfClosing ← Json.Draft.required? fields "self_closing" Json.Draft.bool?
        let indent ← Json.Draft.missing? fields "indent" Json.Draft.string?
        return ⟨id, name, line, kind, attributes, directives, children, selfClosing, indent⟩
termination_by sizeOf d
decreasing_by
  have := Json.Draft.sizeOf_record?_lt _hf _hc
  have := Json.Draft.sizeOf_items?_lt _hi
  omega

def Tag.nodeOfDraft? (d : Json.Draft) : Option (Node Tag) :=
  match _hc : d.case? with
  | some ("Text", content) => content.string?.map .text
  | some ("Tag", content) => (Tag.ofDraft? content).map .child
  | _ => none
termination_by sizeOf d
decreasing_by
  have := Json.Draft.sizeOf_case?_lt _hc
  omega

def Tag.contentOfDraft? (items : List Json.Draft) : Option (List (Node Tag)) :=
  match items with
  | [] => some []
  | item :: rest =>
    match Tag.nodeOfDraft? item, Tag.contentOfDraft? rest with
    | some node, some nodes => some (node :: nodes)
    | _, _ => none
termination_by sizeOf items

end

namespace Template

def toJson (t : Template) : Json :=
  .object [
    ("path", .string t.path), ("namespace", .string t.lead), ("root", t.root.toJson),
    ("processing_instructions", .array (t.instructions.map .string))]

def ofDraft? (d : Json.Draft) : Option Template := do
  let fields ← d.record? ["path", "namespace", "root", "processing_instructions"]
  let path ← Json.Draft.required? fields "path" Json.Draft.string?
  let lead ← Json.Draft.required? fields "namespace" Json.Draft.string?
  let root ← Json.Draft.required? fields "root" Tag.ofDraft?
  let instructions ← Json.Draft.required? fields "processing_instructions" Json.Draft.items?
  let instructions ← instructions.mapM Json.Draft.string?
  return ⟨path, lead, root, instructions⟩

end Template

end XmlTemplate
