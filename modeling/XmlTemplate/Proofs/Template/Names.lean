import XmlTemplate.Template.Tag

/-!
# Names that are not written

Only elements are written with their names. The name of a tag of the control namespace tells its
kind to the compiler and shows nowhere else but in faults of the compiler. Templates that differ in
such names only have tags of the same numbers, which again differ in such names only.
-/

namespace XmlTemplate

/-- The name that a tag of the kind is written with, if any. -/
def TagKind.written (name : String) : TagKind → String
  | .element => name
  | _ => ""

theorem TagKind.written_of_ne {kind : TagKind} (h : kind ≠ .element) (name : String) :
    kind.written name = "" := by
  cases kind with
  | element => contradiction
  | _ => rfl

namespace Tag

mutual

/-- The tag with the names that are written, and no others. -/
def unnamed : Tag → Tag
  | ⟨id, name, line, kind, attributes, directives, children, selfClosing, indent⟩ =>
    ⟨id, kind.written name, line, kind, attributes, directives, contentUnnamed children,
      selfClosing, indent⟩

/-- Content with the names that are written, and no others. -/
def contentUnnamed : List (Node Tag) → List (Node Tag)
  | [] => []
  | .text text :: rest => .text text :: contentUnnamed rest
  | .child t :: rest => .child t.unnamed :: contentUnnamed rest

end

theorem unnamed_eq (t : Tag) : t.unnamed =
    { t with name := t.kind.written t.name, children := contentUnnamed t.children } := by
  obtain ⟨⟩ := t
  rfl

@[simp] theorem id_unnamed (t : Tag) : t.unnamed.id = t.id := by rw [unnamed_eq]

@[simp] theorem line_unnamed (t : Tag) : t.unnamed.line = t.line := by rw [unnamed_eq]

@[simp] theorem kind_unnamed (t : Tag) : t.unnamed.kind = t.kind := by rw [unnamed_eq]

@[simp] theorem attributes_unnamed (t : Tag) : t.unnamed.attributes = t.attributes := by
  rw [unnamed_eq]

@[simp] theorem directives_unnamed (t : Tag) : t.unnamed.directives = t.directives := by
  rw [unnamed_eq]

@[simp] theorem selfClosing_unnamed (t : Tag) : t.unnamed.selfClosing = t.selfClosing := by
  rw [unnamed_eq]

@[simp] theorem indent_unnamed (t : Tag) : t.unnamed.indent = t.indent := by rw [unnamed_eq]

/-- The name of an element is written. -/
theorem name_unnamed {t : Tag} (hkind : t.kind = .element) : t.unnamed.name = t.name := by
  rw [unnamed_eq]
  simp only [hkind, TagKind.written]

/-- The node with the names that are written, and no others. -/
def nodeUnnamed : Node Tag → Node Tag
  | .text text => .text text
  | .child t => .child t.unnamed

theorem contentUnnamed_eq_map (content : List (Node Tag)) :
    contentUnnamed content = content.map nodeUnnamed := by
  induction content with
  | nil => rfl
  | cons node rest ih => cases node <;> rw [contentUnnamed, ih] <;> rfl

theorem children_unnamed (t : Tag) : t.unnamed.children = t.children.map nodeUnnamed := by
  rw [unnamed_eq, contentUnnamed_eq_map]

theorem childTags_unnamed (t : Tag) : t.unnamed.childTags = t.childTags.map unnamed := by
  unfold childTags
  rw [children_unnamed]
  induction t.children with
  | nil => rfl
  | cons node rest ih =>
    cases node with
    | text text => exact ih
    | child c => exact congrArg (c.unnamed :: ·) ih

theorem startsUpTo_contentUnnamed (target : Nat) (content : List (Node Tag)) :
    startsUpTo target (contentUnnamed content) = startsUpTo target content := by
  induction content with
  | nil => rfl
  | cons node rest ih =>
    cases node with
    | text text => exact ih
    | child t => rw [contentUnnamed, startsUpTo, startsUpTo, id_unnamed]

mutual

theorem find?_unnamed (target : Nat) : ∀ t : Tag,
    t.unnamed.find? target = (t.find? target).map unnamed
  | ⟨id, name, line, kind, attributes, directives, children, selfClosing, indent⟩ => by
    rw [unnamed, find?, find?]
    split
    · rfl
    · exact findIn?_contentUnnamed target children

theorem findIn?_contentUnnamed (target : Nat) : ∀ content : List (Node Tag),
    findIn? target (contentUnnamed content) = (findIn? target content).map unnamed
  | [] => rfl
  | .text text :: rest => findIn?_contentUnnamed target rest
  | .child t :: rest => by
    rw [contentUnnamed, findIn?, findIn?, id_unnamed, startsUpTo_contentUnnamed]
    split
    · rfl
    · split
      · exact findIn?_contentUnnamed target rest
      · exact find?_unnamed target t

end

end Tag

namespace Template

/-- The template with the names that are written, and no others. -/
def unnamed (t : Template) : Template := { t with lead := "", root := t.root.unnamed }

theorem find?_unnamed (id : Nat) (t : Template) :
    t.unnamed.find? id = (t.find? id).map Tag.unnamed :=
  t.root.find?_unnamed id

end Template

end XmlTemplate
