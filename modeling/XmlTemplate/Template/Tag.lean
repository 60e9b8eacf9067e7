import XmlTemplate.Expr.Basic
import XmlTemplate.Markup.Basic
import XmlTemplate.Text.Property

/-!
# Tags of templates

A template is a tree of tags. Control attributes of a tag are its directives, and a tag of the
control namespace has a kind of its own. Tags are numbered in the order in which they open.
-/

namespace XmlTemplate

/-- An expression of a template with its source. -/
structure Directive where
  source : String
  expr : Expr
  deriving Inhabited

/-- The control attributes of a tag. -/
structure Directives where
  walk : Option Directive
  cond : Option Directive
  text : Option Directive
  mute : Option Directive
  void : Option Directive
  auto : Option Directive
  append : Option Directive
  /-- The name of the macro that the tag defines. -/
  macroName : Option String
  /-- The name of the macro that the tag calls. -/
  call : Option String
  slot : Option String
  plug : Option String
  filter : Option String
  deriving Inhabited

/-- No control attributes. -/
def Directives.none : Directives :=
  ⟨.none, .none, .none, .none, .none, .none, .none, .none, .none, .none, .none, .none⟩

/-- What a tag does. -/
inductive TagKind where
  | element
  /-- A tag of the control namespace that only holds content. -/
  | control
  /-- Another template in place of the tag. -/
  | inclusion (file : String)
  /-- The text of a file in place of the tag. -/
  | verbatim (file : String)
  /-- An attribute of the parent. -/
  | attr (name : String) (value : Option Directive)
  /-- A parameter of the parent. -/
  | param (name : String) (value : Option Directive)
  | feed (feedClass : String) (target : Option String)
  | dictionary (file : String) (name source : Option String)
  | mount (target : String) (value : Option Directive)
  | trans (key dict source : Option String)
  deriving Inhabited

/-- A tag that its parent takes in. -/
def TagKind.belongsToParent : TagKind → Bool
  | attr .. | param .. => true
  | _ => false

/-- A tag of a template. -/
structure Tag where
  /-- Number of the tag in the order of opening tags, from 0. -/
  id : Nat
  name : String
  line : Nat
  kind : TagKind
  /-- Attributes without control meaning, with their raw values. -/
  attributes : List (String × String)
  directives : Directives
  children : List (Node Tag)
  selfClosing : Bool
  /-- Blanks that separate the repetitions of a walked tag. -/
  indent : Option String
  deriving Inhabited

/-- A compiled template. -/
structure Template where
  /-- Normalized path. -/
  path : String
  /-- What names of the control namespace start with. -/
  lead : String
  root : Tag
  instructions : List String

namespace Tag

/-- The tags among the children. -/
def childTags (t : Tag) : List Tag :=
  t.children.filterMap fun
    | .text _ => none
    | .child t => some t

/-- The tag has no children other than blank text. -/
def isBlank (t : Tag) : Bool :=
  t.children.all fun
    | .text text => text.toList.all Text.isWhiteSpace
    | .child _ => false

/-- The first tag of some content has a number up to `target`. -/
def startsUpTo (target : Nat) : List (Node Tag) → Bool
  | [] => false
  | .text _ :: rest => startsUpTo target rest
  | .child t :: _ => t.id ≤ target

mutual

/-- The tag with a number, in the subtree of a tag. Numbers grow in the order of opening tags, so
that only the last child whose number is not above the one in question can hold it. -/
def find? (target : Nat) : Tag → Option Tag
  | ⟨id, name, line, kind, attributes, directives, children, selfClosing, indent⟩ =>
    if id = target then
      some ⟨id, name, line, kind, attributes, directives, children, selfClosing, indent⟩
    else findIn? target children

/-- The tag with a number, in the last tag of some content whose number is not above it. -/
def findIn? (target : Nat) : List (Node Tag) → Option Tag
  | [] => none
  | .text _ :: rest => findIn? target rest
  | .child t :: rest =>
    if target < t.id then none
    else if startsUpTo target rest then findIn? target rest
    else find? target t

end

end Tag

/-- The tag with a number. -/
def Template.find? (id : Nat) (t : Template) : Option Tag := t.root.find? id

end XmlTemplate
