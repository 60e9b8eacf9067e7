import XmlTemplate.Proofs.Render.Lockstep
import XmlTemplate.Proofs.Template.Names

/-!
# Names that are not rendered

A render does not look at the names of tags of the control namespace: such a tag is never written,
and what stands in its place does not show how it is called. So a tag is rendered in the same way
without these names.
-/

namespace XmlTemplate

@[simp] theorem Tag.place_unnamed (t : Tag) (view : Nat) : t.unnamed.place view = t.place view := by
  simp only [place, line_unnamed]

namespace Render

variable {e : Engine} {inner : Renderer} {view : Nat}

/-! ## What does not depend on other tags -/

@[simp] theorem condition_unnamed (t : Tag) : condition e view t.unnamed = condition e view t := by
  simp only [condition, Tag.directives_unnamed, Tag.place_unnamed]

@[simp] theorem arguments_unnamed (t : Tag) : arguments e view t.unnamed = arguments e view t := by
  simp only [arguments, Tag.attributes_unnamed, Tag.place_unnamed]

theorem elementEnd_unnamed {t : Tag} (hkind : t.kind = .element) (text : String) :
    elementEnd e view t.unnamed text = elementEnd e view t text := by
  simp only [elementEnd, emptyEnd, Tag.place_unnamed, Tag.directives_unnamed,
    Tag.selfClosing_unnamed, Tag.name_unnamed hkind]

/-! ## What depends on the tags within -/

section

variable (hinner : ∀ t : Tag, inner t.unnamed = inner t)

include hinner

theorem content_unnamed (t : Tag) : content inner view t.unnamed = content inner view t := by
  have hnode (done : String) (node : Node Tag) :
      addNode inner view done (Tag.nodeUnnamed node) = addNode inner view done node := by
    cases node with
    | text text => rfl
    | child t => simp only [Tag.nodeUnnamed, addNode, Tag.kind_unnamed, hinner]
  simp only [content, Tag.children_unnamed, List.foldlM_map, hnode]

theorem parameters_unnamed (t : Tag) :
    parameters e inner view t.unnamed = parameters e inner view t := by
  have hchild (done : Table Value) (c : Tag) :
      addParameter e inner view done c.unnamed = addParameter e inner view done c := by
    simp only [addParameter, Tag.kind_unnamed, condition_unnamed, Tag.place_unnamed,
      content_unnamed hinner]
  simp only [parameters, Tag.childTags_unnamed, List.foldlM_map, hchild]

theorem attributes_unnamed (t : Tag) :
    attributes e inner view t.unnamed = attributes e inner view t := by
  have hchild (done : Table String) (c : Tag) :
      addSet e inner view done c.unnamed = addSet e inner view done c := by
    simp only [addSet, Tag.kind_unnamed, condition_unnamed, Tag.directives_unnamed,
      Tag.place_unnamed, content_unnamed hinner]
  simp only [attributes, Tag.attributes_unnamed, Tag.place_unnamed, Tag.childTags_unnamed,
    List.foldlM_map, hchild]

theorem body_unnamed (t : Tag) : body e inner view t.unnamed = body e inner view t := by
  simp only [body, Tag.directives_unnamed, Tag.place_unnamed, content_unnamed hinner]

/-- Only an element is written with its name. -/
theorem element_unnamed {t : Tag} (hkind : t.kind = .element ∨ t.kind = .control) :
    element e inner view t.unnamed = element e inner view t := by
  rcases hkind with hkind | hkind
  · simp only [element, Tag.kind_unnamed, hkind, Tag.place_unnamed, Tag.directives_unnamed,
      body_unnamed hinner, attributes_unnamed hinner, elementEnd_unnamed hkind,
      Tag.name_unnamed hkind]
  · simp only [element, Tag.kind_unnamed, hkind, pure_bind, if_true, body_unnamed hinner]

theorem trans_unnamed (t : Tag) (key dict source : Option String) :
    trans e inner view t.unnamed key dict source = trans e inner view t key dict source := by
  have hplaceholder (parameters : Table Value) :
      addPlaceholder e view t.unnamed parameters = addPlaceholder e view t parameters := by
    funext known piece
    cases piece with
    | literal text => rfl
    | run name => simp only [addPlaceholder, placeholder, Tag.place_unnamed, Tag.attributes_unnamed]
  simp only [trans, finish, fillPlaceholders, Tag.place_unnamed, hplaceholder,
    parameters_unnamed hinner, content_unnamed hinner]

theorem kind_unnamed (t : Tag) : kind e inner view t.unnamed = kind e inner view t := by
  unfold kind
  rw [Tag.kind_unnamed]
  split
  · rename_i hkind
    exact element_unnamed hinner (.inl hkind)
  · rename_i hkind
    exact element_unnamed hinner (.inr hkind)
  · simp only [inclusion, Tag.place_unnamed]
  · simp only [verbatim, Tag.place_unnamed]
  · rfl
  · rfl
  · simp only [feed, arguments_unnamed, Tag.place_unnamed]
  · simp only [dictionary, Tag.place_unnamed]
  · simp only [mount, Tag.place_unnamed, content_unnamed hinner]
  · exact trans_unnamed hinner t _ _ _

theorem single_unnamed (t : Tag) (suppressed : Suppressed) :
    single e inner view t.unnamed suppressed = single e inner view t suppressed := by
  simp only [single, shown, callMacro, slot, plug, condition_unnamed, Tag.directives_unnamed,
    Tag.id_unnamed, Tag.place_unnamed, arguments_unnamed, parameters_unnamed hinner,
    kind_unnamed hinner]

theorem walk_unnamed (t : Tag) (d : Directive) (suppressed : Suppressed) :
    walk e inner view t.unnamed d suppressed = walk e inner view t d suppressed := by
  have hitem (suppressed : Suppressed) (done : String) (item : Value × Value) :
      addItem inner view t.unnamed suppressed done item =
        addItem inner view t suppressed done item := by
    simp only [addItem, hinner, Tag.indent_unnamed]
  have hitems (suppressed : Suppressed) :
      addItem inner view t.unnamed suppressed = addItem inner view t suppressed :=
    funext₂ (hitem suppressed)
  simp only [walk, Tag.place_unnamed, hitems]

theorem tagStep_unnamed (t : Tag) : tagStep e inner t.unnamed = tagStep e inner t := by
  funext view suppressed
  simp only [tagStep, Tag.directives_unnamed, walk_unnamed hinner, single_unnamed hinner]

end

/-- Tags are rendered in the same way without the names that are not written. -/
theorem tag_unnamed (e : Engine) (depth : Nat) (t : Tag) :
    tag e depth t.unnamed = tag e depth t := by
  induction depth generalizing t with
  | zero => rfl
  | succ depth ih => exact tagStep_unnamed ih t

end Render

end XmlTemplate
