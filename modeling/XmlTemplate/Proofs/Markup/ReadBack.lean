import Mathlib.Data.List.Chain
import XmlTemplate.Proofs.Markup.Opening
import XmlTemplate.Proofs.Markup.Single
import XmlTemplate.Proofs.Markup.Spelling

/-!
# Markup that is read back

The children of an element are written as markup and read again as the content of another element.
They come back as they were, up to lines, if each text stands for itself and the tags of each
element are tags by themselves. For text is written as it is, without regard to what it was read
from, and values of attributes are put between double quotes.
-/

namespace XmlTemplate

/-! ## Elements up to lines -/

namespace Element

mutual

/-- The element without lines. -/
def unlined : Element → Element
  | ⟨name, attributes, _, selfClosing, children⟩ =>
    ⟨name, attributes, 0, selfClosing, contentUnlined children⟩

/-- Content without lines. -/
def contentUnlined : List (Node Element) → List (Node Element)
  | [] => []
  | .text text :: rest => .text text :: contentUnlined rest
  | .child e :: rest => .child e.unlined :: contentUnlined rest

end

/-- The children, written within an element of their own, are read as they are, up to lines. -/
def ReadsBack (e : Element) : Prop :=
  ∃ document, Document.read ("<w>" ++ e.innerMarkup ++ "</w>") = .ok document ∧
    contentUnlined document.root.children = contentUnlined e.children

end Element

namespace Markup

/-! ## Texts -/

/-- The text stands in a document for itself: it starts no tag, and each ampersand a reference. -/
structure IsSource (text : List Char) : Prop where
  start : text ≠ []
  tags : '<' ∉ text
  references : ∀ rest, '&' :: rest <:+ text → (Event.reference? rest).isSome

theorem IsSource.of_suffix {text after : List Char} (h : IsSource text) (hafter : after <:+ text)
    (hne : after ≠ []) : IsSource after :=
  ⟨hne, fun hmem => h.tags (hafter.mem hmem),
    fun rest hrest => h.references rest (hrest.trans hafter)⟩

/-- A reference is found whatever follows it. -/
theorem Event.reference?_append {text name more : List Char}
    (h : reference? text = some (name, more)) (rest : List Char) :
    reference? (text ++ rest) = some (name, more ++ rest) := by
  induction text generalizing name with
  | nil => cases h
  | cons c text ih =>
    rw [reference?] at h
    rw [List.cons_append, reference?]
    split
    · rename_i hend
      rw [if_pos hend] at h
      cases h
      rfl
    · rename_i hend
      rw [if_neg hend] at h
      split
      · rename_i hother
        rw [if_pos hother] at h
        cases h
      · rename_i hother
        rw [if_neg hother] at h
        obtain ⟨b, hb, rfl⟩ := Text.consFirst_eq_some_iff.1 h
        rw [ih hb]
        rfl

/-- A run ends at the first character that ends one. -/
theorem Event.takeWhile_append {p : Char → Bool} {c : Char} (h : p c = false)
    (text rest : List Char) :
    (text ++ c :: rest).takeWhile p = text.takeWhile p ∧
      (text ++ c :: rest).dropWhile p = text.dropWhile p ++ c :: rest := by
  induction text with
  | nil => simp [h]
  | cons d text ih => cases hd : p d <;> simp [hd, ih]

/-- A text that stands for itself starts with an event that adds a part of it. -/
theorem IsSource.exists_event {c : Char} {text : List Char} (h : IsSource (c :: text))
    (rest : List Char) : ∃ event piece after, c :: text = piece ++ after ∧ piece ≠ [] ∧
      Event.next c (text ++ '<' :: rest) = .ok (event, after ++ '<' :: rest) ∧
      ∀ line b, Builder.step line event b = b.append piece := by
  have htag : c ≠ '<' := fun hc => h.tags (hc ▸ List.mem_cons_self ..)
  by_cases hreference : c = '&'
  · subst hreference
    obtain ⟨⟨name, after⟩, hname⟩ :=
      Option.isSome_iff_exists.1 (h.references text (List.suffix_refl _))
    obtain ⟨rfl, -⟩ := Event.of_reference? hname
    refine ⟨.reference name, '&' :: name ++ [';'], after, by simp, List.cons_ne_nil _ _, ?_,
      fun _ _ => rfl⟩
    rw [Event.next, if_neg (by decide), if_pos rfl, Event.reference?_append hname]
  · refine ⟨.text (c :: text.takeWhile (!Event.endsRun ·)), c :: text.takeWhile (!Event.endsRun ·),
      text.dropWhile (!Event.endsRun ·), ?_, List.cons_ne_nil _ _, ?_, fun _ _ => rfl⟩
    · rw [List.cons_append, List.takeWhile_append_dropWhile]
    · obtain ⟨htake, hdrop⟩ :=
        Event.takeWhile_append (p := (!Event.endsRun ·)) (c := '<') rfl text rest
      rw [Event.next, if_neg htag, if_neg hreference, htake, hdrop]

namespace Builder

theorem addText_addText (a b : List Char) (content : List (Node Element)) :
    addText (String.ofList b) (addText (String.ofList a) content) =
      addText (String.ofList (a ++ b)) content := by
  cases content with
  | nil => simp [addText]
  | cons node rest => cases node <;> simp [addText, String.append_assoc]

end Builder

variable (lineOf : List Char → Nat) (root : Option Element) (instructions : List String)

/-- A text that stands for itself is read as it is. -/
theorem readFrom_text {text : List Char} (h : IsSource text) (parent : OpenElement)
    (outer : List OpenElement) (rest : List Char) :
    readFrom lineOf ⟨parent :: outer, root, instructions⟩ (text ++ '<' :: rest) =
      readFrom lineOf
        ⟨{ parent with content := Builder.addText (String.ofList text) parent.content } :: outer,
          root, instructions⟩ ('<' :: rest) := by
  induction hlength : text.length using Nat.strong_induction_on generalizing text parent with
  | h n ih =>
    obtain ⟨c, more, rfl⟩ := List.exists_cons_of_ne_nil h.start
    obtain ⟨event, piece, after, hsplit, hpiece, hnext, hstep⟩ := h.exists_event rest
    have happend : Builder.append piece ⟨parent :: outer, root, instructions⟩ = .ok
        ⟨{ parent with content := Builder.addText (String.ofList piece) parent.content } :: outer,
          root, instructions⟩ := rfl
    rw [List.cons_append, readFrom_of_next hnext ((hstep _ _).trans happend)]
    cases after with
    | nil => rw [hsplit, List.append_nil, List.nil_append]
    | cons d after =>
      have hafter : IsSource (d :: after) :=
        h.of_suffix ⟨piece, hsplit.symm⟩ (List.cons_ne_nil _ _)
      have hshorter : (d :: after).length < n := by
        have := congrArg List.length hsplit
        have := List.length_pos_of_ne_nil hpiece
        simp only [List.length_append] at *
        omega
      rw [ih _ hshorter hafter _ rfl, hsplit, ← Builder.addText_addText]

/-! ## Tags -/

/-- The event is a tag. -/
def Event.isTag : Event → Bool
  | .opening .. | .closing _ => true
  | _ => false

theorem Event.tagBody_append {quote : Option Char} {rest : List Char} (chars : List Char)
    (h : tagBody quote (chars ++ '>' :: rest) = .ok (chars, rest)) (rest' : List Char) :
    tagBody quote (chars ++ '>' :: rest') = .ok (chars, rest') := by
  induction chars generalizing quote with
  | nil =>
    simp only [List.nil_append, tagBody] at h ⊢
    split at h
    · rename_i hend
      rw [if_pos hend]
    · split at h
      · cases h
      · cases h
  | cons c chars ih =>
    simp only [List.cons_append, tagBody] at h ⊢
    split at h
    · cases h
    · rename_i hend
      rw [if_neg hend]
      split at h
      · cases h
      · rename_i hrest
        cases h
        rw [ih hrest]

theorem Event.isTag_of_special {text rest : List Char} {event : Event}
    (h : special text = .ok (event, rest)) : event.isTag = false := by
  unfold special at h
  split at h
  · split at h
    · cases h
    · split at h
      · cases h
      · cases h
        rfl
  · split at h
    · split at h
      · cases h
      · cases h
        rfl
    · cases h
  · split at h
    · unfold doctype at h
      split at h
      · cases h
      · split at h
        · split at h
          · cases h
          · cases h
            rfl
        · cases h
    · cases h
  · cases h

theorem Event.isTag_of_instructionOf {text rest : List Char} {event : Event}
    (h : instructionOf text = .ok (event, rest)) : event.isTag = false := by
  unfold instructionOf at h
  split at h
  · cases h
  · split at h
    · cases h
      split <;> rfl
    · cases h

theorem Event.tag_cons {c : Char} (hspecial : c ≠ '!') (hinstruction : c ≠ '?')
    (hclosing : c ≠ '/') (text : List Char) :
    tag (c :: text) =
      match tagBody none (c :: text) with
      | .error problem => .error problem
      | .ok (body, rest) => .ok (openingOf body, rest) := by
  unfold tag
  split
  · rename_i heq
    exact absurd (List.cons.inj heq).1 hspecial
  · rename_i heq
    exact absurd (List.cons.inj heq).1 hinstruction
  · rename_i heq
    exact absurd (List.cons.inj heq).1 hclosing
  · cases tagBody none (c :: text) <;> rfl

/-- A tag is one whatever follows it. -/
theorem Event.next_append (chars : List Char) {rest : List Char} {event : Event}
    (h : next '<' (chars ++ '>' :: rest) = .ok (event, rest)) (hevent : event.isTag = true)
    (rest' : List Char) : next '<' (chars ++ '>' :: rest') = .ok (event, rest') := by
  rw [next, if_pos rfl] at h ⊢
  cases chars with
  | nil =>
    cases h
    rfl
  | cons c chars =>
    rw [List.cons_append] at h ⊢
    by_cases hspecial : c = '!'
    · subst hspecial
      rw [isTag_of_special h] at hevent
      cases hevent
    by_cases hinstruction : c = '?'
    · subst hinstruction
      rw [isTag_of_instructionOf h] at hevent
      cases hevent
    by_cases hclosing : c = '/'
    · subst hclosing
      rw [tag] at h ⊢
      split at h
      · cases h
      · rename_i content rest hcontent
        cases h
        obtain rfl := List.append_cancel_right (eq_append_of_tagBody hcontent)
        rw [tagBody_append chars hcontent]
    · rw [tag_cons hspecial hinstruction hclosing] at h ⊢
      split at h
      · cases h
      · rename_i body rest hbody
        cases h
        obtain rfl : c :: chars = body := List.append_cancel_right (eq_append_of_tagBody hbody)
        have hlocal := tagBody_append (c :: chars) hbody rest'
        rw [List.cons_append] at hlocal
        rw [hlocal]

end Markup

open Markup

/-- The opening tag of the element, without its marks. -/
def Element.tagChars (e : Element) : List Char := e.name.toList ++ attributesChars e.attributes

/-- The tags of the element, as it is written, are by themselves read as tags of this element. -/
structure Element.TagsStand (e : Element) : Prop where
  opening : Event.next '<' (e.tagChars ++ if e.selfClosing then ['/', '>'] else ['>']) =
    .ok (.opening e.tagChars e.selfClosing, [])
  name : String.ofList (tagName e.tagChars) = e.name
  attributes : Attribute.readAll e.tagChars = .ok e.attributes
  closing : e.selfClosing = false →
    Event.next '<' ('/' :: (e.name.toList ++ ['>'])) = .ok (.closing e.name.toList, [])

/-- The opening tag is read whatever follows it. -/
theorem Element.TagsStand.next_opening {e : Element} (h : e.TagsStand) (rest : List Char) :
    Event.next '<' (e.tagChars ++ (if e.selfClosing then ['/', '>'] else ['>']) ++ rest) =
      .ok (.opening e.tagChars e.selfClosing, rest) := by
  have hopening := h.opening
  cases hsingle : e.selfClosing with
  | false =>
    rw [hsingle] at hopening
    simpa using Event.next_append e.tagChars hopening rfl rest
  | true =>
    rw [hsingle] at hopening
    have hslash : Event.next '<' (e.tagChars ++ ['/'] ++ ['>']) =
        .ok (.opening e.tagChars true, []) := by
      simpa using hopening
    simpa using Event.next_append (e.tagChars ++ ['/']) hslash rfl rest

theorem Element.TagsStand.next_closing {e : Element} (h : e.TagsStand)
    (hsingle : e.selfClosing = false) (rest : List Char) :
    Event.next '<' ('/' :: (e.name.toList ++ '>' :: rest)) = .ok (.closing e.name.toList, rest) :=
  Event.next_append ('/' :: e.name.toList) (h.closing hsingle) rfl rest

/-- A name that holds no blank is the name of its closing tag. -/
theorem Markup.Event.closingName_of_notMem {name : List Char} (h : ∀ c ∈ name, isBlank c = false) :
    closingName name = name := by
  have hkeep : Text.dropWhileEnd isBlank name = name := by
    induction name with
    | nil => rfl
    | cons c name ih =>
      obtain ⟨hc, hname⟩ := List.forall_mem_cons.1 h
      rw [Text.dropWhileEnd, ih hname]
      cases name with
      | nil => simp [hc]
      | cons d name => rfl
  rw [closingName, hkeep]
  split
  · rfl
  · rfl

/-- The name of the element and its keys are plain. -/
structure Element.HasPlainNames (e : Element) : Prop where
  name : IsPlainName e.name.toList
  keys : ∀ p ∈ e.attributes, IsPlainName p.1.toList

/-- With plain names, tags stand if no value holds a double quote. -/
theorem Element.TagsStand.of_hasPlainNames {e : Element} (h : e.HasPlainNames)
    (hnodup : (e.attributes.map Prod.fst).Nodup)
    (hvalues : ∀ p ∈ e.attributes, '"' ∉ p.2.toList) : e.TagsStand := by
  have hwritable : ∀ p ∈ e.attributes, IsWritable p := fun p hp => ⟨h.keys p hp, hvalues p hp⟩
  refine ⟨?_, ?_, Attribute.readAll_single h.name hwritable hnodup, fun _ => ?_⟩
  · cases e.selfClosing with
    | true => exact Event.next_single h.name hwritable
    | false =>
      have hend : Event.tagBody none ['>'] = .ok ([], []) := rfl
      have hopening := Event.next_tag h.name hwritable hend
      rw [List.append_nil, Event.openingOf_plain h.name] at hopening
      exact hopening
  · rw [tagChars, Attribute.tagName_single h.name, String.ofList_toList]
  · have hblank : ∀ c ∈ e.name.toList, isBlank c = false := fun c hc =>
      (isNamePart_iff.1 (h.name.2 c hc)).1
    have hend : Event.tagBody none ['>'] = .ok ([], []) := rfl
    have hbody := Event.tagBody_name h.name.2 hend
    rw [Event.next, if_pos rfl, Event.tag, hbody, List.append_nil]
    simp only [Event.closingName_of_notMem hblank]

/-! ## Trees that are read -/

/-- Not both nodes are text. -/
def Node.Apart : Node Element → Node Element → Prop
  | .text _, .text _ => False
  | _, _ => True

theorem Node.Apart.symm {a b : Node Element} (h : a.Apart b) : b.Apart a := by
  cases a <;> cases b <;> trivial

/-- The element is as all that are read: single tags have no children, and no text follows another
one. -/
structure Element.IsTidy (e : Element) : Prop where
  single : e.selfClosing = true → e.children = []
  apart : e.children.IsChain Node.Apart

/-- Text joins text and stays apart from all else. -/
theorem Markup.Builder.isChain_addText (text : String) {content : List (Node Element)}
    (h : content.IsChain Node.Apart) : (addText text content).IsChain Node.Apart := by
  unfold addText
  split
  · rename_i before rest
    obtain ⟨hfirst, hrest⟩ := List.isChain_cons.1 h
    refine List.isChain_cons.2 ⟨fun node hnode => ?_, hrest⟩
    cases node with
    | text other => exact hfirst _ hnode
    | child e => trivial
  · rename_i hother
    refine List.isChain_cons.2 ⟨fun node hnode => ?_, h⟩
    cases node with
    | text other =>
      obtain ⟨rest, rfl⟩ := List.head?_eq_some_iff.1 hnode
      exact absurd rfl (hother other rest)
    | child e => trivial

theorem Document.isTidy_of_read {source : String} {document : Document}
    (h : Document.read source = .ok document) : ∀ e ∈ document.root.elements, e.IsTidy := by
  refine forall_of_read (fun e => e.content.IsChain Node.Apart) (fun line event => ?_) h
  exact {
    single := fun _ _ _ _ => ⟨fun _ => rfl, .nil⟩
    opening := fun _ _ _ _ => .nil
    closing := fun e _ he =>
      ⟨nofun, List.isChain_reverse.2 (he.imp fun _ _ hapart => hapart.symm)⟩
    text := fun e text _ he => Builder.isChain_addText _ he
    child := fun e child _ he => List.isChain_cons.2 ⟨fun node _ => by cases node <;> trivial, he⟩ }

/-- All texts in the element stand for themselves. -/
def Element.HoldsSources (e : Element) : Prop :=
  ∀ text, .text text ∈ e.children → IsSource text.toList

/-- What is needed of all elements in an element for it to be read back. -/
structure Element.IsReadable (e : Element) : Prop where
  tidy : e.IsTidy
  sources : e.HoldsSources
  tags : e.TagsStand

namespace Element

theorem toList_markup {e : Element} (hsingle : e.selfClosing = true → e.children = []) :
    e.markup.toList = '<' :: (e.tagChars ++ (if e.selfClosing then ['/', '>'] else ['>']) ++
      if e.selfClosing then [] else
        (contentMarkup e.children).toList ++ '<' :: '/' :: (e.name.toList ++ ['>'])) := by
  obtain ⟨name, attributes, line, selfClosing, children⟩ := e
  cases selfClosing with
  | false => simp [markup, tagChars, ← toList_join_attributeMarkup]
  | true =>
    have hnone : children = [] := hsingle rfl
    simp [markup, tagChars, ← toList_join_attributeMarkup, hnone]

/-- Behind a text, what is written of other content and the end starts with a tag. -/
theorem exists_tag_of_content {text : String} {es : List (Node Element)}
    (h : ∀ node ∈ es.head?, (Node.text text).Apart node) (rest : List Char) :
    ∃ rest', (contentMarkup es).toList ++ '<' :: rest = '<' :: rest' := by
  cases es with
  | nil => exact ⟨rest, rfl⟩
  | cons node es =>
    cases node with
    | text other => exact (h _ rfl).elim
    | child e =>
      obtain ⟨name, attributes, line, selfClosing, children⟩ := e
      simp only [contentMarkup, markup]
      split <;> simp

end Element

namespace Markup

open Element (contentMarkup contentUnlined contentElements)

theorem Builder.addText_of_apart {text : String} {content : List (Node Element)}
    (h : ∀ node ∈ content.head?, node.Apart (.text text)) :
    addText text content = .text text :: content := by
  unfold addText
  split
  · exact (h _ rfl).elim
  · rfl

variable (lineOf : List Char → Nat) (root : Option Element) (instructions : List String)

theorem readFrom_single {e : Element} (h : e.TagsStand) (hsingle : e.selfClosing = true)
    (parent : OpenElement) (outer : List OpenElement) (rest : List Char) :
    ∃ line, readFrom lineOf ⟨parent :: outer, root, instructions⟩
        ('<' :: (e.tagChars ++ '/' :: '>' :: rest)) =
      readFrom lineOf
        ⟨{ parent with content := .child ⟨e.name, e.attributes, line, true, []⟩ ::
          parent.content } :: outer, root, instructions⟩ rest := by
  have hnext := h.next_opening rest
  rw [hsingle, if_pos rfl, List.append_assoc] at hnext
  have hstep (line : Nat) : Builder.step line (.opening e.tagChars true)
      ⟨parent :: outer, root, instructions⟩ =
        .ok ⟨{ parent with content := .child ⟨e.name, e.attributes, line, true, []⟩ ::
          parent.content } :: outer, root, instructions⟩ := by
    simp only [Builder.step, h.attributes, h.name]
    rfl
  exact ⟨_, readFrom_of_next hnext (hstep _)⟩

theorem readFrom_opening {e : Element} (h : e.TagsStand) (hsingle : e.selfClosing = false)
    (opened : List OpenElement) (rest : List Char) :
    ∃ line, readFrom lineOf ⟨opened, root, instructions⟩ ('<' :: (e.tagChars ++ '>' :: rest)) =
      readFrom lineOf ⟨⟨e.name, e.attributes, line, []⟩ :: opened, root, instructions⟩ rest := by
  have hnext := h.next_opening rest
  rw [hsingle, if_neg Bool.false_ne_true, List.append_assoc] at hnext
  have hstep (line : Nat) : Builder.step line (.opening e.tagChars false)
      ⟨opened, root, instructions⟩ =
        .ok ⟨⟨e.name, e.attributes, line, []⟩ :: opened, root, instructions⟩ := by
    simp only [Builder.step, h.attributes, h.name]
    rfl
  exact ⟨_, readFrom_of_next hnext (hstep _)⟩

theorem readFrom_closing {e : Element} (h : e.TagsStand) (hsingle : e.selfClosing = false)
    (inner : OpenElement) (hname : inner.name = e.name) (parent : OpenElement)
    (outer : List OpenElement) (rest : List Char) :
    readFrom lineOf ⟨inner :: parent :: outer, root, instructions⟩
        ('<' :: '/' :: (e.name.toList ++ '>' :: rest)) =
      readFrom lineOf
        ⟨{ parent with content := .child ⟨inner.name, inner.attributes, inner.line, false,
            inner.content.reverse⟩ :: parent.content } :: outer, root, instructions⟩ rest := by
  refine readFrom_of_next (h.next_closing hsingle rest) ?_
  rw [Builder.step, String.ofList_toList]
  exact if_pos hname

mutual

/-- An element is read from what is written of it, up to lines. -/
theorem readFrom_markup : ∀ (e : Element), (∀ u ∈ e.elements, u.IsReadable) →
    ∀ (parent : OpenElement) (outer : List OpenElement) (rest : List Char),
      ∃ e' : Element, e'.unlined = e.unlined ∧
        readFrom lineOf ⟨parent :: outer, root, instructions⟩ (e.markup.toList ++ rest) =
          readFrom lineOf
            ⟨{ parent with content := .child e' :: parent.content } :: outer, root, instructions⟩
            rest
  | ⟨name, attributes, line, true, children⟩, h, parent, outer, rest => by
    obtain ⟨⟨htidy, -, htags⟩, -⟩ := List.forall_mem_cons.1 h
    have hnone : children = [] := htidy.single rfl
    obtain ⟨line', hsingle⟩ :=
      readFrom_single lineOf root instructions htags rfl parent outer rest
    refine ⟨⟨name, attributes, line', true, []⟩, by rw [hnone]; rfl, ?_⟩
    rw [← hsingle, Element.toList_markup htidy.single]
    simp
  | ⟨name, attributes, line, false, children⟩, h, parent, outer, rest => by
    obtain ⟨⟨htidy, hsources, htags⟩, hchildren⟩ := List.forall_mem_cons.1 h
    obtain ⟨line', hopening⟩ := readFrom_opening lineOf root instructions htags rfl
      (parent :: outer)
      ((contentMarkup children).toList ++ '<' :: '/' :: (name.toList ++ '>' :: rest))
    obtain ⟨children', hunlined, hcontent⟩ := readFrom_contentMarkup children hchildren htidy.apart
      hsources ⟨name, attributes, line', []⟩ (parent :: outer) ('/' :: (name.toList ++ '>' :: rest))
      nofun
    have hclosing := readFrom_closing lineOf root instructions htags rfl
      ⟨name, attributes, line', children'.reverse ++ []⟩ rfl parent outer rest
    refine ⟨⟨name, attributes, line', false, children'⟩, ?_, ?_⟩
    · rw [Element.unlined, Element.unlined, hunlined]
    · rw [List.append_nil, List.reverse_reverse] at hclosing
      rw [List.append_nil] at hcontent
      rw [← hclosing, ← hcontent, ← hopening, Element.toList_markup htidy.single]
      simp

/-- Content is read from what is written of it, up to lines. -/
theorem readFrom_contentMarkup : ∀ (es : List (Node Element)),
    (∀ u ∈ contentElements es, u.IsReadable) → es.IsChain Node.Apart →
    (∀ text, .text text ∈ es → IsSource text.toList) →
    ∀ (parent : OpenElement) (outer : List OpenElement) (rest : List Char),
      (∀ node ∈ parent.content.head?, ∀ first ∈ es.head?, node.Apart first) →
      ∃ es', contentUnlined es' = contentUnlined es ∧
        readFrom lineOf ⟨parent :: outer, root, instructions⟩
            ((contentMarkup es).toList ++ '<' :: rest) =
          readFrom lineOf
            ⟨{ parent with content := es'.reverse ++ parent.content } :: outer, root, instructions⟩
            ('<' :: rest)
  | [], h, hapart, hsources, parent, outer, rest, hparent => ⟨[], rfl, rfl⟩
  | .text text :: es, h, hapart, hsources, parent, outer, rest, hparent => by
    obtain ⟨hfirst, hapart⟩ := List.isChain_cons.1 hapart
    obtain ⟨rest', hrest⟩ := Element.exists_tag_of_content hfirst rest
    obtain ⟨es', hes, hread⟩ := readFrom_contentMarkup es h hapart
      (fun other hother => hsources other (List.mem_cons_of_mem _ hother))
      { parent with content := .text text :: parent.content } outer rest
      (fun node hnode => by cases hnode; exact hfirst)
    refine ⟨.text text :: es', by rw [contentUnlined, contentUnlined, hes], ?_⟩
    have htext := readFrom_text lineOf root instructions
      (hsources text (List.mem_cons_self ..)) parent outer rest'
    rw [String.ofList_toList,
      Builder.addText_of_apart fun node hnode => hparent node hnode _ rfl] at htext
    rw [contentMarkup, String.toList_append, List.append_assoc, hrest, htext, ← hrest, hread]
    simp
  | .child e :: es, h, hapart, hsources, parent, outer, rest, hparent => by
    obtain ⟨he, hes⟩ := List.forall_mem_append.1 h
    obtain ⟨e', hunlined, hchild⟩ := readFrom_markup e he parent outer
      ((contentMarkup es).toList ++ '<' :: rest)
    obtain ⟨es', hothers, hread⟩ := readFrom_contentMarkup es hes (List.isChain_cons.1 hapart).2
      (fun other hother => hsources other (List.mem_cons_of_mem _ hother))
      { parent with content := .child e' :: parent.content } outer rest
      (fun node hnode => by cases hnode; exact fun first _ => by cases first <;> trivial)
    refine ⟨.child e' :: es', by rw [contentUnlined, contentUnlined, hunlined, hothers], ?_⟩
    rw [contentMarkup, String.toList_append, List.append_assoc, hchild, hread]
    simp

end

end Markup

/-- A text that starts with a tag is read from there, with lines of some kind. -/
theorem Document.exists_read_eq {source : String} {rest : List Char}
    (h : source.toList = '<' :: rest) :
    ∃ lineOf, Document.read source = readFrom lineOf ⟨[], none, []⟩ ('<' :: rest) := by
  have hmark : withoutMark ('<' :: rest) = '<' :: rest := by
    rw [withoutMark, if_neg (by decide)]
  refine ⟨fun after =>
    lineAfter (Text.byteSize ('<' :: rest) - Text.byteSize after) ('<' :: rest), ?_⟩
  rw [Document.read]
  simp only [h, hmark]

/-- The element that content is written in to be read back. -/
def Element.wrapper : Element := ⟨"w", [], 0, false, []⟩

theorem Element.tagsStand_wrapper : wrapper.TagsStand :=
  .of_hasPlainNames ⟨by decide, nofun⟩ .nil nofun

theorem Element.toList_wrapped (e : Element) : ("<w>" ++ e.innerMarkup ++ "</w>").toList =
    '<' :: (wrapper.tagChars ++ '>' :: ((contentMarkup e.children).toList ++
      '<' :: '/' :: (wrapper.name.toList ++ '>' :: []))) := by
  simp [innerMarkup, wrapper, tagChars, attributesChars]

/-- An element whose content stands is read back. -/
theorem Element.readsBack_of_isReadable {e : Element} (htidy : e.IsTidy) (hsources : e.HoldsSources)
    (hchildren : ∀ u ∈ contentElements e.children, u.IsReadable) : e.ReadsBack := by
  obtain ⟨lineOf, hread⟩ := Document.exists_read_eq e.toList_wrapped
  obtain ⟨line, hopening⟩ := readFrom_opening lineOf none [] tagsStand_wrapper rfl []
    ((contentMarkup e.children).toList ++ '<' :: '/' :: (wrapper.name.toList ++ '>' :: []))
  obtain ⟨children, hunlined, hcontent⟩ := readFrom_contentMarkup lineOf none [] e.children
    hchildren htidy.apart hsources ⟨"w", [], line, []⟩ []
    ('/' :: (wrapper.name.toList ++ '>' :: [])) nofun
  have hclosing : readFrom lineOf ⟨[⟨"w", [], line, children.reverse⟩], none, []⟩
      ('<' :: '/' :: (wrapper.name.toList ++ '>' :: [])) =
        .ok ⟨⟨"w", [], line, false, children⟩, []⟩ := by
    have hstep (n : Nat) : Builder.step n (.closing wrapper.name.toList)
        ⟨[⟨"w", [], line, children.reverse⟩], none, []⟩ =
          .ok ⟨[], some ⟨"w", [], line, false, children⟩, []⟩ := by
      simp [Builder.step, Builder.close, wrapper]
    rw [readFrom_of_next (tagsStand_wrapper.next_closing rfl []) (hstep _), readFrom]
    rfl
  rw [List.append_nil] at hcontent
  refine ⟨_, hread.trans (hopening.trans (hcontent.trans hclosing)), hunlined⟩

end XmlTemplate
