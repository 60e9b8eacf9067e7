import XmlTemplate.Markup.Reader
import XmlTemplate.Proofs.Outcome
import XmlTemplate.Proofs.Template.Rename

/-!
# What holds of all elements

What an event makes of a builder is told once, by the kinds of events. So a property of elements
holds of all elements of a document if it holds of those that single tags make and of those that are
closed, given a property of open elements that every event keeps. In particular, no element has two
attributes of one name: its attributes are those of an opening tag.
-/

namespace XmlTemplate

namespace Markup

/-! ## Keys -/

/-- Keys that are read are new, and none comes twice. -/
theorem Attribute.of_readFrom {size : Nat} {seen : List (List Char × Nat)} {text : List Char}
    {attributes : List (String × String)} (h : readFrom size seen text = .ok attributes) :
    (attributes.map Prod.fst).Nodup ∧
      ∀ q ∈ attributes, seen.lookup q.1.toList = none := by
  fun_induction readFrom size seen text generalizing attributes with
  | case1 =>
    cases h
    exact ⟨.nil, nofun⟩
  | case2 | case3 | case4 | case5 => cases h
  | case6 =>
    rename_i seen text c rest _ key offset afterKey _ hnew found after _ others hothers ih
    cases h
    obtain ⟨hnodup, hseen⟩ := ih hothers
    have hkey (q : String × String) (hq : q ∈ others) :
        q.1.toList ≠ key ∧ seen.lookup q.1.toList = none := by
      have hlookup := hseen q hq
      rw [List.lookup_cons] at hlookup
      split at hlookup
      · cases hlookup
      · rename_i hne
        exact ⟨fun heq => by simp [heq] at hne, hlookup⟩
    refine ⟨List.nodup_cons.2 ⟨fun hmem => ?_, hnodup⟩, List.forall_mem_cons.2 ⟨?_, ?_⟩⟩
    · obtain ⟨q, hq, heq⟩ := List.mem_map.1 hmem
      apply (hkey q hq).1
      rw [heq, String.toList_ofList]
    · rwa [String.toList_ofList]
    · exact fun q hq => (hkey q hq).2

theorem Attribute.nodup_of_readAll {body : List Char} {attributes : List (String × String)}
    (h : readAll body = .ok attributes) : (attributes.map Prod.fst).Nodup :=
  (of_readFrom h).1

/-! ## Events -/

/-- The text that an event adds to the innermost element. -/
def Event.text? : Event → Option (List Char)
  | .text run => some run
  | .reference name => some ('&' :: name ++ [';'])
  | .cdata content => some content
  | _ => none

namespace Builder

/-- What an event on a line makes of a builder. -/
inductive IsStep (line : Nat) (b : Builder) : Event → Builder → Prop
  | text {event : Event} {text : List Char} {next : Builder}
      (found : event.text? = some text) (append : b.append text = .ok next) :
      IsStep line b event next
  | instruction {content : List Char} :
      IsStep line b (.instruction content)
        { b with instructions := ("<?" ++ String.ofList content ++ "?>") :: b.instructions }
  | ignored : IsStep line b .ignored b
  | single {body : List Char} {attributes : List (String × String)} {next : Builder}
      (read : Attribute.readAll body = .ok attributes)
      (close : b.close ⟨String.ofList (tagName body), attributes, line, true, []⟩ = .ok next) :
      IsStep line b (.opening body true) next
  | opening {body : List Char} {attributes : List (String × String)}
      (read : Attribute.readAll body = .ok attributes) :
      IsStep line b (.opening body false)
        { b with opened := ⟨String.ofList (tagName body), attributes, line, []⟩ :: b.opened }
  | closing {e : OpenElement} {outer : List OpenElement} {next : Builder}
      (opened : b.opened = e :: outer)
      (close : Builder.close ⟨e.name, e.attributes, e.line, false, e.content.reverse⟩
        { b with opened := outer } = .ok next) :
      IsStep line b (.closing e.name.toList) next

variable {line : Nat} {b next : Builder}

theorem isStep_of_step {event : Event} (h : b.step line event = .ok next) :
    b.IsStep line event next := by
  cases event with
  | text run => exact .text rfl h
  | reference name => exact .text rfl h
  | cdata content => exact .text rfl h
  | instruction content =>
    cases h
    exact .instruction
  | ignored =>
    cases h
    exact .ignored
  | opening body selfClosing =>
    simp only [step] at h
    split at h
    · cases h
    · rename_i attributes hattributes
      cases selfClosing with
      | true => exact .single hattributes h
      | false =>
        cases h
        exact .opening hattributes
  | closing name =>
    simp only [step] at h
    split at h
    · cases h
    · rename_i e outer hopened
      split at h
      · rename_i hname
        rw [← String.toList_ofList (l := name), ← hname]
        exact .closing hopened h
      · cases h

/-- A document ends where nothing is open any more and there is a root. -/
theorem of_finish {document : Document} (h : b.finish = .ok document) :
    b = ⟨[], some document.root, b.instructions⟩ := by
  obtain ⟨opened, root, instructions⟩ := b
  cases opened with
  | cons e outer => cases h
  | nil =>
    cases root with
    | none => cases h
    | some root =>
      cases h
      rfl

end Builder

/-! ## Elements -/

/-- An event on a line keeps a property of elements, given one of open elements. -/
structure Event.Keeps (P : Element → Prop) (Q : OpenElement → Prop) (line : Nat) (event : Event) :
    Prop where
  single : ∀ body attributes, event = .opening body true → Attribute.readAll body = .ok attributes →
    P ⟨String.ofList (tagName body), attributes, line, true, []⟩
  opening : ∀ body attributes, event = .opening body false →
    Attribute.readAll body = .ok attributes →
    Q ⟨String.ofList (tagName body), attributes, line, []⟩
  closing : ∀ e, event = .closing e.name.toList → Q e →
    P ⟨e.name, e.attributes, e.line, false, e.content.reverse⟩
  text : ∀ e text, event.text? = some text → Q e →
    Q { e with content := Builder.addText (String.ofList text) e.content }
  child : ∀ e child, P child → Q e → Q { e with content := .child child :: e.content }

end Markup

open Markup

theorem Element.mem_contentElements_iff {u : Element} {es : List (Node Element)} :
    u ∈ contentElements es ↔ ∃ e, .child e ∈ es ∧ u ∈ e.elements := by
  induction es with
  | nil => exact ⟨nofun, fun ⟨_, h, _⟩ => nomatch h⟩
  | cons node es ih => cases node <;> simp [contentElements, ih]

namespace Markup.Builder

open Element (contentElements mem_contentElements_iff)

/-- The properties hold of all elements so far and of all that are open. -/
structure Holds (P : Element → Prop) (Q : OpenElement → Prop) (b : Builder) : Prop where
  opened : ∀ e ∈ b.opened, Q e
  content : ∀ e ∈ b.opened, ∀ u ∈ contentElements e.content, P u
  root : ∀ e ∈ b.root, ∀ u ∈ e.elements, P u

variable {P : Element → Prop} {Q : OpenElement → Prop} {line : Nat} {b next : Builder}

theorem Holds.empty : Holds P Q ⟨[], none, []⟩ := ⟨nofun, nofun, nofun⟩

theorem Holds.close {event : Event} (hkeeps : event.Keeps P Q line) {e : Element}
    (hb : b.Holds P Q) (he : ∀ u ∈ e.elements, P u) (h : b.close e = .ok next) :
    next.Holds P Q := by
  obtain ⟨opened, root, instructions⟩ := b
  cases opened with
  | cons parent outer =>
    cases h
    obtain ⟨hparent, houter⟩ := List.forall_mem_cons.1 hb.opened
    obtain ⟨hcontent, hrest⟩ := List.forall_mem_cons.1 hb.content
    have hself : P e := he e (by obtain ⟨⟩ := e; exact List.mem_cons_self ..)
    refine ⟨List.forall_mem_cons.2 ⟨hkeeps.child _ _ hself hparent, houter⟩,
      List.forall_mem_cons.2 ⟨?_, hrest⟩, hb.root⟩
    exact List.forall_mem_append.2 ⟨he, hcontent⟩
  | nil =>
    cases root with
    | none =>
      cases h
      refine ⟨nofun, nofun, fun e' hroot => ?_⟩
      cases hroot
      exact he
    | some root => cases h

theorem Holds.append {event : Event} (hkeeps : event.Keeps P Q line) {text : List Char}
    (htext : event.text? = some text) (hb : b.Holds P Q) (h : b.append text = .ok next) :
    next.Holds P Q := by
  obtain ⟨opened, root, instructions⟩ := b
  cases opened with
  | cons parent outer =>
    cases h
    obtain ⟨hparent, houter⟩ := List.forall_mem_cons.1 hb.opened
    obtain ⟨hcontent, hrest⟩ := List.forall_mem_cons.1 hb.content
    have hadd : contentElements (addText (String.ofList text) parent.content) =
        contentElements parent.content := by
      unfold addText
      split
      · rename_i heq
        rw [heq]
        rfl
      · rfl
    refine ⟨List.forall_mem_cons.2 ⟨hkeeps.text _ _ htext hparent, houter⟩,
      List.forall_mem_cons.2 ⟨?_, hrest⟩, hb.root⟩
    rwa [hadd]
  | nil =>
    simp only [Builder.append] at h
    split at h
    · cases h
      exact hb
    · cases h

theorem Holds.step {event : Event} (hkeeps : event.Keeps P Q line) (hb : b.Holds P Q)
    (h : b.step line event = .ok next) : next.Holds P Q := by
  cases isStep_of_step h with
  | text htext happend => exact hb.append hkeeps htext happend
  | instruction => exact ⟨hb.opened, hb.content, hb.root⟩
  | ignored => exact hb
  | single hattributes hclose =>
    apply hb.close hkeeps _ hclose
    exact List.forall_mem_cons.2 ⟨hkeeps.single _ _ rfl hattributes, List.forall_mem_nil _⟩
  | opening hattributes =>
    exact ⟨List.forall_mem_cons.2 ⟨hkeeps.opening _ _ rfl hattributes, hb.opened⟩,
      List.forall_mem_cons.2 ⟨List.forall_mem_nil _, hb.content⟩, hb.root⟩
  | @closing e outer next hopened hclose =>
    obtain ⟨opened, root, instructions⟩ := b
    cases hopened
    obtain ⟨he, houter⟩ := List.forall_mem_cons.1 hb.opened
    obtain ⟨hecontent, hrest⟩ := List.forall_mem_cons.1 hb.content
    have houtside : Holds P Q ⟨outer, root, instructions⟩ := ⟨houter, hrest, hb.root⟩
    apply houtside.close hkeeps _ hclose
    refine List.forall_mem_cons.2 ⟨hkeeps.closing e rfl he, fun u hu => ?_⟩
    obtain ⟨child, hchild, hu⟩ := mem_contentElements_iff.1 hu
    exact hecontent u (mem_contentElements_iff.2 ⟨child, List.mem_reverse.1 hchild, hu⟩)

theorem Holds.finish {document : Document} (hb : b.Holds P Q) (h : b.finish = .ok document) :
    ∀ u ∈ document.root.elements, P u := by
  rw [of_finish h] at hb
  exact hb.root _ rfl

theorem Holds.readFrom {lineOf : List Char → Nat} {text : List Char} {document : Document}
    (hkeeps : ∀ line event, Event.Keeps P Q line event) (hb : b.Holds P Q)
    (h : readFrom lineOf b text = .ok document) : ∀ u ∈ document.root.elements, P u := by
  fun_induction Markup.readFrom lineOf b text with
  | case1 b => exact hb.finish (Outcome.of_mapError h)
  | case2 => cases h
  | case3 => cases h
  | case4 b c rest event after hevent next hnext ih => exact ih (hb.step (hkeeps _ _) hnext) h

end Markup.Builder

/-- What every event keeps holds of all elements of a document. -/
theorem Document.forall_of_read {P : Element → Prop} (Q : OpenElement → Prop)
    (hkeeps : ∀ line event, Event.Keeps P Q line event) {source : String} {document : Document}
    (h : Document.read source = .ok document) : ∀ u ∈ document.root.elements, P u :=
  Builder.Holds.empty.readFrom hkeeps h

/-- No element of a document that is read has two attributes of one name. -/
theorem Document.nodup_of_read {source : String} {document : Document}
    (h : Document.read source = .ok document) :
    ∀ u ∈ document.root.elements, (u.attributes.map Prod.fst).Nodup := by
  refine forall_of_read (fun e => (e.attributes.map Prod.fst).Nodup) (fun line event => ?_) h
  exact {
    single := fun _ _ _ hread => Attribute.nodup_of_readAll hread
    opening := fun _ _ _ hread => Attribute.nodup_of_readAll hread
    closing := fun _ _ he => he
    text := fun _ _ _ he => he
    child := fun _ _ _ he => he }

end XmlTemplate
