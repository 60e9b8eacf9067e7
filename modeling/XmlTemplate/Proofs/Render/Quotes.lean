import XmlTemplate.Proofs.Files.Segment
import XmlTemplate.Proofs.Outcome
import XmlTemplate.Proofs.Render.Reached
import XmlTemplate.Proofs.Template.Matching
import XmlTemplate.Proofs.Template.Names
import XmlTemplate.Proofs.Text.Entity

/-!
# Quotes in attributes

Attributes are written between double quotes. The runs of an attribute are escaped, so that data
cannot end it, if its own text holds no double quote. What a child sets an attribute to is written
as it comes: this is the only way in which a double quote gets into an attribute.
-/

namespace XmlTemplate

-- ---------------------------------------------------------------------------
-- Attributes of documents and templates
-- ---------------------------------------------------------------------------

namespace Element

mutual

/-- The attributes of an element and of all elements in it. -/
def allAttributes : Element → List (String × String)
  | ⟨_, attributes, _, _, children⟩ => attributes ++ contentAttributes children

/-- The attributes of all elements in some content. -/
def contentAttributes : List (Node Element) → List (String × String)
  | [] => []
  | .text _ :: rest => contentAttributes rest
  | .child e :: rest => e.allAttributes ++ contentAttributes rest

end

end Element

namespace Compile

open Outcome (of_bind)

variable {s : Setting} {line : Nat}

theorem take_subset (name : String) (attributes : List (String × String)) :
    (take name attributes).2 ⊆ attributes := List.eraseP_subset

/-- A tag of the control namespace keeps the attributes that its kind does not take. -/
theorem subset_of_controlKind {tag suffix : String} {attributes plain : List (String × String)}
    {kind : TagKind} (h : controlKind s line tag suffix attributes = .ok (kind, plain)) :
    plain ⊆ attributes := by
  have htwice (first second : String) :
      (take second (take first attributes).2).2 ⊆ attributes :=
    List.Subset.trans (take_subset _ _) (take_subset _ _)
  unfold controlKind at h
  split at h
  · obtain ⟨file, -, h⟩ := of_bind h
    cases h
    exact take_subset _ _
  · obtain ⟨file, -, h⟩ := of_bind h
    cases h
    exact take_subset _ _
  · obtain ⟨name, -, h⟩ := of_bind h
    obtain ⟨value, -, h⟩ := of_bind h
    cases h
    exact htwice _ _
  · obtain ⟨name, -, h⟩ := of_bind h
    obtain ⟨value, -, h⟩ := of_bind h
    cases h
    exact htwice _ _
  · obtain ⟨feedClass, -, h⟩ := of_bind h
    cases h
    exact htwice _ _
  · obtain ⟨file, -, h⟩ := of_bind h
    cases h
    exact List.Subset.trans (take_subset _ _) (htwice _ _)
  · obtain ⟨target, -, h⟩ := of_bind h
    obtain ⟨value, -, h⟩ := of_bind h
    cases h
    exact htwice _ _
  · cases h
    exact List.Subset.trans (take_subset _ _) (htwice _ _)
  · cases h
    exact List.Subset.refl _

theorem subset_of_kindOf {tag : String} {attributes plain : List (String × String)}
    {kind : TagKind} (h : kindOf s line tag attributes = .ok (kind, plain)) :
    plain ⊆ attributes := by
  unfold kindOf at h
  split at h
  · exact subset_of_controlKind h
  · cases h
    exact List.Subset.refl _

mutual

/-- The attributes of tags are attributes of the elements that they are compiled of. -/
theorem attributes_of_element :
    ∀ {e : Element} {id next : Nat} {indent : Option String} {t : Tag},
      element s id indent e = .ok (t, next) → ∀ u ∈ t.tags, u.attributes ⊆ e.allAttributes
  | ⟨name, attributes, line, selfClosing, children⟩, id, next, indent, t, h, u, hu => by
    obtain ⟨d, kind, plain, nodes, -, hkind, hnodes, -, rfl⟩ := element_eq_ok_iff.1 h
    rw [Element.allAttributes]
    rw [Tag.tags, List.mem_cons] at hu
    rcases hu with rfl | hu
    · exact List.subset_append_of_subset_left _
        (List.Subset.trans (subset_of_kindOf hkind) (List.filter_subset_self _))
    · exact List.subset_append_of_subset_right _ (attributes_of_content hnodes u hu)

theorem attributes_of_content :
    ∀ {es : List (Node Element)} {id next : Nat} {indent : Option String} {ts : List (Node Tag)},
      content s id indent es = .ok (ts, next) →
        ∀ u ∈ Tag.contentTags ts, u.attributes ⊆ Element.contentAttributes es
  | [], id, next, indent, ts, h, u, hu => by
    rw [content] at h
    cases h
    cases hu
  | .text text :: rest, id, next, indent, ts, h, u, hu => by
    rw [content] at h
    obtain ⟨⟨others, after⟩, hrest, h⟩ := of_bind h
    cases h
    exact attributes_of_content hrest u hu
  | .child e :: rest, id, next, indent, ts, h, u, hu => by
    rw [content] at h
    obtain ⟨⟨t, middle⟩, helement, h⟩ := of_bind h
    obtain ⟨⟨others, after⟩, hrest, h⟩ := of_bind h
    cases h
    rw [Tag.contentTags, List.mem_append] at hu
    rw [Element.contentAttributes]
    rcases hu with hu | hu
    · exact List.subset_append_of_subset_left _ (attributes_of_element helement u hu)
    · exact List.subset_append_of_subset_right _ (attributes_of_content hrest u hu)

end

end Compile

/-- The attribute can be written between double quotes as it is. -/
def Attribute.IsQuotable (p : String × String) : Prop := '"' ∉ p.2.toList

/-- The template is compiled of a document whose attributes hold no double quotes. -/
def Template.IsQuotable (t : Template) : Prop :=
  ∃ path lead document, ofDocument path lead document = .ok t ∧
    ∀ p ∈ document.root.allAttributes, Attribute.IsQuotable p

theorem Template.IsQuotable.attributes {t : Template} (h : t.IsQuotable) {u : Tag}
    (hu : u ∈ t.root.tags) : ∀ p ∈ u.attributes, Attribute.IsQuotable p := by
  obtain ⟨path, lead, document, hcompile, hdocument⟩ := h
  obtain ⟨setting, next, helement, -⟩ := of_ofDocument hcompile
  exact fun p hp => hdocument p (Compile.attributes_of_element helement u hu hp)

namespace Piece

end Piece

namespace Render

-- ---------------------------------------------------------------------------
-- Results
-- ---------------------------------------------------------------------------

variable {e : Engine} {inner : Renderer} {view : Nat}

/-- A tag is mute, so that only its content is written. -/
def isMute (e : Engine) (view : Nat) (t : Tag) : Render Bool :=
  match t.kind with
  | .control => pure true
  | _ => flag e (t.place view) t.directives.mute

end Render

end XmlTemplate
