import Mathlib.Algebra.GroupWithZero.Nat
import XmlTemplate.Proofs.Outcome
import XmlTemplate.Proofs.Template.Stored
import XmlTemplate.Template.Compile

/-!
# Numbers of tags

Tags are numbered as they open and an opening tag takes a character, so no number of a tag is above
the length of the text, nor is a line by more than one.
-/

namespace XmlTemplate

-- ---------------------------------------------------------------------------
-- Elements
-- ---------------------------------------------------------------------------

mutual

/-- Number of elements. -/
def Element.size : Element → Nat
  | ⟨_, _, _, _, children⟩ => Element.contentSize children + 1

def Element.contentSize : List (Node Element) → Nat
  | [] => 0
  | .text _ :: rest => Element.contentSize rest
  | .child e :: rest => e.size + Element.contentSize rest

end

mutual

/-- The lines of all elements are up to a bound. -/
def Element.LinesUpTo (high : Nat) : Element → Prop
  | ⟨_, _, line, _, children⟩ => line ≤ high ∧ Element.ContentLinesUpTo high children

def Element.ContentLinesUpTo (high : Nat) : List (Node Element) → Prop
  | [] => True
  | .text _ :: rest => Element.ContentLinesUpTo high rest
  | .child e :: rest => e.LinesUpTo high ∧ Element.ContentLinesUpTo high rest

end

namespace Element

theorem contentSize_append (before after : List (Node Element)) :
    contentSize (before ++ after) = contentSize before + contentSize after := by
  induction before with
  | nil => simp [contentSize]
  | cons node rest ih => cases node <;> simp [contentSize, ih, Nat.add_assoc]

theorem contentSize_reverse (content : List (Node Element)) :
    contentSize content.reverse = contentSize content := by
  induction content with
  | nil => rfl
  | cons node rest ih =>
    rw [List.reverse_cons, contentSize_append, ih]
    cases node <;> simp [contentSize, Nat.add_comm]

theorem contentLinesUpTo_append {high : Nat} {before after : List (Node Element)} :
    ContentLinesUpTo high (before ++ after) ↔
      ContentLinesUpTo high before ∧ ContentLinesUpTo high after := by
  induction before with
  | nil => simp [ContentLinesUpTo]
  | cons node rest ih => cases node <;> simp [ContentLinesUpTo, ih, and_assoc]

theorem contentLinesUpTo_reverse {high : Nat} {content : List (Node Element)} :
    ContentLinesUpTo high content.reverse ↔ ContentLinesUpTo high content := by
  induction content with
  | nil => rfl
  | cons node rest ih =>
    rw [List.reverse_cons, contentLinesUpTo_append, ih]
    cases node <;> simp [ContentLinesUpTo, and_comm]

end Element

-- ---------------------------------------------------------------------------
-- Documents
-- ---------------------------------------------------------------------------

namespace Markup.Builder

open Element

/-- Number of elements that were opened and not closed, with what is in them. -/
def openedSize (opened : List OpenElement) : Nat :=
  (opened.map fun e => contentSize e.content + 1).sum

/-- Number of elements that were opened so far. -/
def size (b : Builder) : Nat := openedSize b.opened + (b.root.map Element.size).getD 0

/-- The lines of all elements so far are up to a bound. -/
def LinesUpTo (high : Nat) (b : Builder) : Prop :=
  (∀ e ∈ b.opened, e.line ≤ high ∧ ContentLinesUpTo high e.content) ∧
    ∀ e ∈ b.root, e.LinesUpTo high

variable {high line : Nat} {b next : Builder}

theorem of_close {e : Element} (h : b.close e = .ok next) (he : e.LinesUpTo high)
    (hb : b.LinesUpTo high) : next.size = b.size + e.size ∧ next.LinesUpTo high := by
  obtain ⟨opened, root, instructions⟩ := b
  cases opened with
  | cons parent outer =>
    cases h
    obtain ⟨⟨hline, hcontent⟩, houter⟩ := List.forall_mem_cons.1 hb.1
    refine ⟨?_, List.forall_mem_cons.2 ⟨⟨hline, he, hcontent⟩, houter⟩, hb.2⟩
    simp only [size, openedSize, List.map_cons, List.sum_cons, contentSize]
    omega
  | nil =>
    cases root with
    | none =>
      cases h
      refine ⟨by simp [size, openedSize], nofun, fun e' hroot => ?_⟩
      cases hroot
      exact he
    | some root => cases h

theorem of_append {text : List Char} (h : b.append text = .ok next) (hb : b.LinesUpTo high) :
    next.size = b.size ∧ next.LinesUpTo high := by
  obtain ⟨opened, root, instructions⟩ := b
  cases opened with
  | cons parent outer =>
    cases h
    obtain ⟨⟨hline, hcontent⟩, houter⟩ := List.forall_mem_cons.1 hb.1
    have hadd : contentSize (addText (String.ofList text) parent.content) =
        contentSize parent.content ∧
          ContentLinesUpTo high (addText (String.ofList text) parent.content) := by
      unfold addText
      split
      · rename_i heq
        rw [heq] at hcontent ⊢
        exact ⟨rfl, hcontent⟩
      · exact ⟨rfl, hcontent⟩
    refine ⟨?_, List.forall_mem_cons.2 ⟨⟨hline, hadd.2⟩, houter⟩, hb.2⟩
    simp only [size, openedSize, List.map_cons, List.sum_cons, hadd.1]
  | nil =>
    simp only [append] at h
    split at h
    · cases h
      exact ⟨rfl, hb⟩
    · cases h

/-- An event opens one element at most. -/
theorem of_step {event : Event} (h : b.step line event = .ok next) (hline : line ≤ high)
    (hb : b.LinesUpTo high) : next.size ≤ b.size + 1 ∧ next.LinesUpTo high := by
  have happend {text : List Char} (h : b.append text = .ok next) :
      next.size ≤ b.size + 1 ∧ next.LinesUpTo high := by
    obtain ⟨hsize, hlines⟩ := of_append h hb
    exact ⟨hsize ▸ Nat.le_succ _, hlines⟩
  cases event with
  | text run => exact happend h
  | reference name => exact happend h
  | cdata text => exact happend h
  | instruction content =>
    cases h
    exact ⟨Nat.le_succ _, hb⟩
  | ignored =>
    cases h
    exact ⟨Nat.le_succ _, hb⟩
  | opening body selfClosing =>
    simp only [step] at h
    split at h
    · cases h
    · split at h
      · obtain ⟨hsize, hlines⟩ := of_close h ⟨hline, trivial⟩ hb
        exact ⟨Nat.le_of_eq hsize, hlines⟩
      · cases h
        refine ⟨?_, List.forall_mem_cons.2 ⟨⟨hline, trivial⟩, hb.1⟩, hb.2⟩
        simp only [size, openedSize, List.map_cons, List.sum_cons, contentSize]
        omega
  | closing name =>
    simp only [step] at h
    split at h
    · cases h
    · rename_i e outer hopened
      split at h
      · have hopen := hb.1
        rw [hopened] at hopen
        obtain ⟨⟨heline, hcontent⟩, houter⟩ := List.forall_mem_cons.1 hopen
        obtain ⟨hsize, hlines⟩ := of_close h
          ⟨heline, contentLinesUpTo_reverse.2 hcontent⟩ ⟨houter, hb.2⟩
        refine ⟨?_, hlines⟩
        rw [hsize]
        simp only [size, hopened, openedSize, List.map_cons, List.sum_cons, Element.size,
          contentSize_reverse]
        omega
      · cases h

theorem of_readFrom {lineOf : List Char → Nat} {text : List Char} {document : Document}
    (h : readFrom lineOf b text = .ok document) (hline : ∀ rest, lineOf rest ≤ high)
    (hb : b.LinesUpTo high) :
    document.root.size ≤ b.size + text.length ∧ document.root.LinesUpTo high := by
  fun_induction readFrom lineOf b text with
  | case1 b =>
    obtain ⟨opened, root, instructions⟩ := b
    cases opened with
    | cons e outer => cases h
    | nil =>
      cases root with
      | none => cases h
      | some root =>
        cases h
        exact ⟨by simp [size, openedSize], hb.2 root rfl⟩
  | case2 => cases h
  | case3 => cases h
  | case4 b c rest event after hevent next hnext ih =>
    obtain ⟨hsize, hlines⟩ := of_step hnext (hline _) hb
    obtain ⟨hroot, hrootLines⟩ := ih h hlines
    have := Event.length_of_next hevent
    refine ⟨?_, hrootLines⟩
    simp only [List.length_cons]
    omega

end Markup.Builder

theorem Markup.lineAfter_le (bytes : Nat) (text : List Char) :
    lineAfter bytes text ≤ text.length + 1 := by
  induction text generalizing bytes with
  | nil => exact Nat.le_refl 1
  | cons c rest ih =>
    have := ih (bytes - c.utf8Size)
    rw [lineAfter, List.length_cons]
    split
    · omega
    · split <;> omega

theorem Markup.length_withoutMark_le (text : List Char) :
    (withoutMark text).length ≤ text.length := by
  unfold withoutMark
  split
  · split <;> simp
  · simp

theorem Document.of_read {source : String} {document : Document} {high : Nat}
    (h : Document.read source = .ok document) (hhigh : source.toList.length < high) :
    document.root.size ≤ source.toList.length ∧ document.root.LinesUpTo high := by
  obtain ⟨hsize, hlines⟩ := Markup.Builder.of_readFrom h
    (fun rest => Nat.le_trans (Markup.lineAfter_le _ source.toList) hhigh) ⟨nofun, nofun⟩
  have := Markup.length_withoutMark_le source.toList
  refine ⟨?_, hlines⟩
  simp only [Markup.Builder.size, Markup.Builder.openedSize, List.map_nil, List.sum_nil,
    Option.map_none, Option.getD_none] at hsize
  omega

-- ---------------------------------------------------------------------------
-- Templates
-- ---------------------------------------------------------------------------

namespace Compile

open Outcome (of_bind)

mutual

/-- An element takes as many numbers as it has elements. -/
theorem of_element {s : Setting} {high : Nat} :
    ∀ {e : Element} {id next : Nat} {indent : Option String} {t : Tag},
      element s id indent e = .ok (t, next) → next = id + e.size ∧
        (e.LinesUpTo high → next ≤ high + 1 → t.UpTo high)
  | ⟨name, attributes, line, selfClosing, children⟩, id, next, indent, t, h => by
    rw [element] at h
    obtain ⟨directives, -, h⟩ := of_bind h
    obtain ⟨⟨kind, plain⟩, -, h⟩ := of_bind h
    obtain ⟨⟨content, after⟩, hcontent, h⟩ := of_bind h
    obtain ⟨hafter, hupTo⟩ := of_content hcontent
    simp only at h
    split at h
    · cases h
    · cases h
      refine ⟨by rw [hafter, Element.size]; omega, fun hlines hnext => ?_⟩
      exact ⟨⟨by omega, hlines.1⟩, hupTo hlines.2 hnext⟩

theorem of_content {s : Setting} {high : Nat} :
    ∀ {es : List (Node Element)} {id next : Nat} {indent : Option String} {ts : List (Node Tag)},
      content s id indent es = .ok (ts, next) → next = id + Element.contentSize es ∧
        (Element.ContentLinesUpTo high es → next ≤ high + 1 → Tag.ContentUpTo high ts)
  | [], id, next, indent, ts, h => by
    rw [content] at h
    cases h
    exact ⟨rfl, fun _ _ => trivial⟩
  | .text text :: rest, id, next, indent, ts, h => by
    rw [content] at h
    obtain ⟨⟨others, after⟩, hrest, h⟩ := of_bind h
    cases h
    obtain ⟨hnext, hothers⟩ := of_content hrest
    exact ⟨hnext, hothers⟩
  | .child e :: rest, id, next, indent, ts, h => by
    rw [content] at h
    obtain ⟨⟨t, middle⟩, helement, h⟩ := of_bind h
    obtain ⟨⟨others, after⟩, hrest, h⟩ := of_bind h
    cases h
    obtain ⟨hmiddle, ht⟩ := of_element helement
    obtain ⟨hnext, hothers⟩ := of_content hrest
    refine ⟨by rw [hnext, hmiddle, Element.contentSize]; omega, fun hlines hbound => ?_⟩
    exact ⟨ht hlines.1 (by omega), hothers hlines.2 hbound⟩

end

end Compile

namespace Template

theorem of_ofDocument {path lead : String} {document : Document} {t : Template}
    (h : ofDocument path lead document = .ok t) :
    ∃ setting : Compile.Setting, ∃ next,
      Compile.element setting 0 none document.root = .ok (t.root, next) ∧ t.path = path := by
  rw [ofDocument] at h
  obtain ⟨⟨root, next⟩, helement, h⟩ := Outcome.of_bind h
  cases h
  exact ⟨_, next, helement, rfl⟩

theorem path_of_compile {path lead text : String} {t : Template}
    (h : compile path lead text = .ok t) : t.path = path := by
  unfold compile at h
  split at h
  · cases h
  · obtain ⟨_, _, -, hpath⟩ := of_ofDocument h
    exact hpath

/-- The numbers in a template are below any bound on the length of its text. -/
theorem upTo_of_compile {path lead text : String} {t : Template} {high : Nat}
    (h : compile path lead text = .ok t) (hhigh : text.toList.length < high) :
    t.root.UpTo high := by
  unfold compile at h
  split at h
  · cases h
  · rename_i document hdocument
    obtain ⟨hsize, hlines⟩ := Document.of_read hdocument hhigh
    obtain ⟨setting, next, helement, -⟩ := of_ofDocument h
    obtain ⟨hnext, hupTo⟩ := Compile.of_element helement
    exact hupTo hlines (by omega)

end Template

end XmlTemplate
