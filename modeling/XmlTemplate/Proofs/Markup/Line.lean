import Mathlib.Data.List.Forall2
import XmlTemplate.Proofs.Markup.Opening
import XmlTemplate.Proofs.Markup.Single
import XmlTemplate.Proofs.Markup.Spelling
import XmlTemplate.Proofs.Template.Matching
import XmlTemplate.Proofs.Template.Numbers
import XmlTemplate.Proofs.Template.Tree

/-!
# Lines of elements

The elements of a document are the opening tags of its text in their order, whatever else the text
is cut into. The line of each is one more than the number of line breaks before its tag, and the tag
that it is compiled to has the same one.

Lines may be counted from event to event as well, in the bytes that were passed since the last one.
That comes to the same.
-/

namespace XmlTemplate

namespace Markup

/-! ## Line breaks -/

theorem lineAfter_append (before rest : List Char) :
    lineAfter (Text.byteSize before) (before ++ rest) = 1 + before.count '\n' := by
  induction before with
  | nil => exact lineAfter_zero rest
  | cons c before ih =>
    have hsize : c.utf8Size + Text.byteSize before ≠ 0 := by
      have := c.utf8Size_pos
      omega
    rw [Text.byteSize, List.cons_append, lineAfter, if_neg hsize, Nat.add_sub_cancel_left, ih,
      List.count_cons, Nat.add_assoc]
    simp only [beq_iff_eq]

/-- A byte of a line break is one in no other character. -/
theorem mem_utf8EncodeChar_iff {c : Char} : 10 ∈ String.utf8EncodeChar c ↔ c = '\n' := by
  have hbreak : c = '\n' ↔ c.val.toNat = 10 := Char.toNat_inj.symm
  rw [hbreak]
  unfold String.utf8EncodeChar
  simp only
  split_ifs
  all_goals
    simp only [List.mem_cons, List.not_mem_nil, or_false, ← UInt8.toNat_inj, UInt8.toNat_ofNat',
      UInt8.reduceToNat]
    omega

theorem lineAfter_eq (bytes : Nat) (text : List Char) :
    lineAfter bytes text = 1 + ((text.flatMap String.utf8EncodeChar).take bytes).count 10 := by
  induction text generalizing bytes with
  | nil => simp [lineAfter]
  | cons c text ih =>
    have hchar (n : Nat) : ((String.utf8EncodeChar c).take (n + 1)).count 10 =
        if c = '\n' then 1 else 0 := by
      split
      · rename_i hc
        rw [hc]
        simp [String.utf8EncodeChar]
      · rename_i hc
        refine List.count_eq_zero.2 fun hmem => hc ?_
        exact mem_utf8EncodeChar_iff.1 (List.mem_of_mem_take hmem)
    cases bytes with
    | zero => simp [lineAfter]
    | succ n =>
      rw [lineAfter, if_neg n.succ_ne_zero, ih, List.flatMap_cons, List.take_append,
        String.length_utf8EncodeChar, List.count_append, hchar]
      omega

/-! ## Counting from event to event -/

/-- How far the lines of a text were counted. -/
structure LineCounter where
  /-- Bytes that were passed. -/
  pos : Nat
  line : Nat

/-- Go on to a place in the text, but never back and never beyond its end. -/
def LineCounter.advanceTo (source : List UInt8) (pos : Nat) (k : LineCounter) : LineCounter :=
  let pos := min pos source.length
  if k.pos < pos then ⟨pos, k.line + ((source.take pos).drop k.pos).count 10⟩ else k

/-- Read what remains of a document, with a counter that goes on before each event. `position` tells
the place of the reader by what remains there. -/
def readCounting (source : List UInt8) (position : List Char → Nat) (k : LineCounter) (b : Builder)
    (text : List Char) : Except (Nat × Problem) Document :=
  let k := k.advanceTo source (position text)
  match text with
  | [] => b.finish.mapError (k.line, ·)
  | c :: rest =>
    match _h : Event.next c rest with
    | .error problem => .error (k.line, problem)
    | .ok (event, after) =>
      match b.step k.line event with
      | .error problem => .error (k.line, problem)
      | .ok next => readCounting source position k next after
termination_by text.length
decreasing_by
  have := Event.length_of_next _h
  simp only [List.length_cons]
  omega

/-- The counter has counted all line breaks that were passed. -/
structure LineCounter.IsRight (source : List UInt8) (k : LineCounter) : Prop where
  pos : k.pos ≤ source.length
  line : k.line = 1 + (source.take k.pos).count 10

theorem LineCounter.IsRight.advanceTo {source : List UInt8} {k : LineCounter} {pos : Nat}
    (h : k.IsRight source) (hpos : k.pos ≤ pos) :
    (k.advanceTo source pos).IsRight source ∧ (k.advanceTo source pos).pos ≤ pos ∧
      (k.advanceTo source pos).line = 1 + (source.take pos).count 10 := by
  have htake : source.take (min pos source.length) = source.take pos := by
    rw [List.take_eq_take_iff]
    omega
  unfold LineCounter.advanceTo
  simp only
  split
  · rename_i hlt
    have hcount : k.line + ((source.take (min pos source.length)).drop k.pos).count 10 =
        1 + (source.take pos).count 10 := by
      have hparts := List.take_append_drop k.pos (source.take pos)
      rw [List.take_take, Nat.min_eq_left hpos] at hparts
      rw [h.line, htake, Nat.add_assoc, ← List.count_append, hparts]
    refine ⟨⟨Nat.min_le_right .., ?_⟩, Nat.min_le_left .., hcount⟩
    rw [hcount, htake]
  · rename_i hle
    have hend : k.pos = min pos source.length := by
      have := h.pos
      omega
    refine ⟨h, hpos, ?_⟩
    rw [h.line, hend, htake]

theorem readCounting_eq {source : List UInt8} {position : List Char → Nat} {k : LineCounter}
    {b : Builder} {text : List Char} (hk : k.IsRight source) (hpos : k.pos ≤ position text)
    (hposition : ∀ middle rest, rest <:+ middle → middle <:+ text →
      position middle ≤ position rest) :
    readCounting source position k b text =
      readFrom (fun rest => 1 + (source.take (position rest)).count 10) b text := by
  fun_induction readCounting source position k b text with
  | case1 k b k' =>
    obtain ⟨-, -, hline⟩ := hk.advanceTo hpos
    rw [readFrom, ← hline]
  | case2 k b c rest problem hnext k' =>
    obtain ⟨-, -, hline⟩ := hk.advanceTo hpos
    rw [readFrom_cons, hnext, ← hline]
  | case3 k b c rest event after hnext problem k' hstep =>
    obtain ⟨-, -, hline⟩ := hk.advanceTo hpos
    rw [readFrom_cons, hnext]
    simp only [← hline]
    rw [hstep]
  | case4 k b c rest event after hnext next k' hstep ih =>
    obtain ⟨hright, hle, hline⟩ := hk.advanceTo hpos
    obtain ⟨piece, hpiece, -⟩ := Event.isSpelled_of_next hnext
    have hafter : after <:+ c :: rest := ⟨piece, hpiece.symm⟩
    rw [readFrom_cons, hnext]
    simp only [← hline]
    rw [hstep, ih hright (Nat.le_trans hle (hposition _ _ hafter (List.suffix_refl _)))]
    exact fun middle rest hrest hmiddle => hposition middle rest hrest (hmiddle.trans hafter)

end Markup

open Markup

/-- The place of the reader where `rest` remains of a text, in bytes. -/
def Document.reported (source : String) (rest : List Char) : Nat :=
  Text.byteSize (withoutMark source.toList) - Text.byteSize rest

/-- Read a document with a counter of lines. -/
def Document.readCounting (source : String) : Except (Nat × Problem) Document :=
  Markup.readCounting (source.toList.flatMap String.utf8EncodeChar) (reported source) ⟨0, 1⟩
    ⟨[], none, []⟩ (withoutMark source.toList)

theorem Document.readCounting_eq (source : String) :
    Document.readCounting source = Document.read source := by
  have hlines (rest : List Char) : lineAfter (reported source rest) source.toList =
      1 + ((source.toList.flatMap String.utf8EncodeChar).take (reported source rest)).count 10 :=
    lineAfter_eq ..
  have hstart : (⟨0, 1⟩ : LineCounter).IsRight (source.toList.flatMap String.utf8EncodeChar) :=
    ⟨Nat.zero_le _, rfl⟩
  rw [Document.readCounting, Markup.readCounting_eq hstart (Nat.zero_le _), Document.read]
  · simp only [← hlines]
    rfl
  · rintro middle rest ⟨before, rfl⟩ -
    simp only [reported, Text.byteSize_append]
    omega

/-! ## Opening tags -/

namespace Markup

/-- The text behind `before` is cut into these events. Each stands with what comes before it. -/
inductive IsCut : (before text : List Char) → List (List Char × Event) → Prop
  | nil {before : List Char} : IsCut before [] []
  | cons {before piece rest after : List Char} {c : Char} {event : Event}
      {events : List (List Char × Event)} (next : Event.next c rest = .ok (event, after))
      (split : c :: rest = piece ++ after) (others : IsCut (before ++ piece) after events) :
      IsCut before (c :: rest) ((before, event) :: events)

/-- The body of an opening tag; nothing for other events. -/
def Event.bodies : Event → List (List Char)
  | .opening body _ => [body]
  | _ => []

/-- The bodies of the opening tags, each with what comes before the tag. -/
def openings (events : List (List Char × Event)) : List (List Char × List Char) :=
  events.flatMap fun (before, event) => event.bodies.map fun body => (before, body)

/-- What an opening tag tells of its element. -/
structure Head where
  name : String
  attributes : List (String × String)
  line : Nat

/-- An opening tag with this body, on this line, tells this of its element. -/
structure Head.IsOf (line : Nat) (body : List Char) (head : Head) : Prop where
  name : head.name = String.ofList (tagName body)
  attributes : Attribute.readAll body = .ok head.attributes
  line : head.line = line

/-- The tag with this body stands at its place in the text. -/
def StandsIn (source : List Char) (tag : List Char × List Char) : Prop :=
  ∃ rest, source = tag.1 ++ '<' :: (tag.2 ++ rest)

/-- Where a text is cut, the opening tags stand. -/
theorem standsIn_of_isCut {before text : List Char} {events : List (List Char × Event)}
    (h : IsCut before text events) : ∀ tag ∈ openings events, StandsIn (before ++ text) tag := by
  induction h with
  | nil => exact nofun
  | @cons before piece rest after c event events hnext hsplit hothers ih =>
    refine List.forall_mem_append.2 ⟨fun tag htag => ?_, ?_⟩
    · obtain ⟨body, hbody, rfl⟩ := List.mem_map.1 htag
      obtain ⟨piece, hpiece, hspelled⟩ := Event.isSpelled_of_next hnext
      cases hspelled with
      | opening =>
        cases List.mem_singleton.1 hbody
        exact ⟨'>' :: after, by rw [hpiece]; simp⟩
      | single =>
        cases List.mem_singleton.1 hbody
        exact ⟨'/' :: '>' :: after, by rw [hpiece]; simp⟩
      | _ => cases hbody
    · rwa [hsplit, ← List.append_assoc]

end Markup

namespace Element

/-- What the opening tag of the element tells. -/
def head (e : Element) : Head := ⟨e.name, e.attributes, e.line⟩

/-- The heads of all elements in some content. -/
def contentHeads (es : List (Node Element)) : List Head := (contentElements es).map head

theorem contentElements_append (before after : List (Node Element)) :
    contentElements (before ++ after) = contentElements before ++ contentElements after := by
  induction before with
  | nil => rfl
  | cons node before ih => cases node <;> simp [contentElements, ih]

theorem map_head_elements (e : Element) :
    e.elements.map head = e.head :: contentHeads e.children := by
  obtain ⟨⟩ := e
  rfl

end Element

namespace Markup

open Element (contentHeads contentElements_append)

/-- The heads of an open element and of what is in it so far. -/
def OpenElement.heads (e : OpenElement) : List Head :=
  ⟨e.name, e.attributes, e.line⟩ :: contentHeads e.content.reverse

namespace Builder

/-- The heads of all elements so far, in the order of their opening tags. -/
def heads (b : Builder) : List Head :=
  (b.root.elim [] fun root => root.elements.map Element.head) ++
    b.opened.reverse.flatMap OpenElement.heads

variable {line : Nat} {b next : Builder}

theorem heads_close {e : Element} (h : b.close e = .ok next) :
    next.heads = b.heads ++ e.elements.map Element.head := by
  obtain ⟨opened, root, instructions⟩ := b
  cases opened with
  | cons parent outer =>
    cases h
    simp [heads, OpenElement.heads, contentHeads, contentElements_append, Element.contentElements]
  | nil =>
    cases root with
    | none =>
      cases h
      simp [heads]
    | some root => cases h

/-- Text holds no element. -/
theorem contentHeads_addText (text : String) (content : List (Node Element)) :
    contentHeads (addText text content).reverse = contentHeads content.reverse := by
  unfold addText
  split <;> simp [contentHeads, contentElements_append, Element.contentElements]

theorem heads_append {text : List Char} (h : b.append text = .ok next) : next.heads = b.heads := by
  obtain ⟨opened, root, instructions⟩ := b
  cases opened with
  | cons parent outer =>
    cases h
    simp [heads, OpenElement.heads, contentHeads_addText]
  | nil =>
    simp only [append] at h
    split at h
    · cases h
      rfl
    · cases h

/-- An opening tag adds the head of its element; nothing else adds one. -/
theorem heads_step {event : Event} (h : b.step line event = .ok next) :
    ∃ new, next.heads = b.heads ++ new ∧
      List.Forall₂ (fun head body => head.IsOf line body) new event.bodies := by
  cases isStep_of_step h with
  | text htext happend =>
    have hbodies : event.bodies = [] := by cases event <;> first | rfl | cases htext
    rw [hbodies]
    exact ⟨[], by rw [heads_append happend, List.append_nil], .nil⟩
  | instruction => exact ⟨[], (List.append_nil _).symm, .nil⟩
  | ignored => exact ⟨[], (List.append_nil _).symm, .nil⟩
  | single hattributes hclose => exact ⟨_, heads_close hclose, .cons ⟨rfl, hattributes, rfl⟩ .nil⟩
  | @opening body attributes hattributes =>
    refine ⟨[⟨String.ofList (tagName body), attributes, line⟩], ?_,
      .cons ⟨rfl, hattributes, rfl⟩ .nil⟩
    simp [heads, OpenElement.heads, contentHeads, Element.contentElements]
  | closing hopened hclose =>
    refine ⟨[], ?_, .nil⟩
    rw [heads_close hclose, Element.map_head_elements]
    simp [heads, hopened, OpenElement.heads, Element.head]

/-- A run adds the heads of all opening tags of the text, with the lines of their places. -/
theorem heads_of_readFrom {lineOf lineAt : List Char → Nat} {text : List Char}
    {document : Document} (h : readFrom lineOf b text = .ok document) (before : List Char)
    (hline : ∀ start rest, start ++ rest = before ++ text → lineOf rest = lineAt start) :
    ∃ events new, IsCut before text events ∧
      document.root.elements.map Element.head = b.heads ++ new ∧
      List.Forall₂ (fun head tag => head.IsOf (lineAt tag.1) tag.2) new (openings events) := by
  fun_induction readFrom lineOf b text generalizing before with
  | case1 b =>
    refine ⟨[], [], .nil, ?_, .nil⟩
    rw [of_finish (Outcome.of_mapError h)]
    simp [heads]
  | case2 => cases h
  | case3 => cases h
  | case4 b c rest event after hnext next hstep ih =>
    obtain ⟨piece, hpiece, hspelled⟩ := Event.isSpelled_of_next hnext
    have hwhole : before ++ piece ++ after = before ++ c :: rest := by
      rw [List.append_assoc, hpiece]
    obtain ⟨first, hfirst, htag⟩ := heads_step hstep
    obtain ⟨events, others, hcut, hothers, htags⟩ := ih h (before ++ piece)
      fun start rest heq => hline start rest (heq.trans hwhole)
    refine ⟨(before, event) :: events, first ++ others, .cons hnext hpiece hcut, ?_, ?_⟩
    · rw [hothers, hfirst, List.append_assoc]
    · rw [hline before (c :: rest) rfl] at htag
      exact List.rel_append (List.forall₂_map_right_iff.2 htag) htags

end Builder

end Markup

/-- The name and the attributes of the element are those of an opening tag with this body. -/
structure Element.IsOpenedBy (body : List Char) (e : Element) : Prop where
  name : e.name = String.ofList (tagName body)
  attributes : Attribute.readAll body = .ok e.attributes

namespace Compile

open Outcome (of_bind)

mutual

/-- A tag is compiled from each element, in the same order and with the same line. -/
theorem tags_element {s : Setting} : ∀ {e : Element} {id next : Nat} {indent : Option String}
    {t : Tag}, element s id indent e = .ok (t, next) →
      t.tags.map (fun t => (t.name, t.line)) = e.elements.map fun e => (e.name, e.line)
  | ⟨name, attributes, line, selfClosing, children⟩, id, next, indent, t, h => by
    obtain ⟨d, kind, plain, nodes, -, -, hnodes, -, rfl⟩ := element_eq_ok_iff.1 h
    rw [Tag.tags, Element.elements, List.map_cons, List.map_cons, tags_content hnodes]

theorem tags_content {s : Setting} : ∀ {es : List (Node Element)} {id next : Nat}
    {indent : Option String} {nodes : List (Node Tag)},
    content s id indent es = .ok (nodes, next) →
      (Tag.contentTags nodes).map (fun t => (t.name, t.line)) =
        (Element.contentElements es).map fun e => (e.name, e.line)
  | [], id, next, indent, nodes, h => by
    rw [content] at h
    cases h
    rfl
  | .text text :: rest, id, next, indent, nodes, h => by
    rw [content] at h
    obtain ⟨⟨others, after⟩, hrest, h⟩ := of_bind h
    cases h
    rw [Tag.contentTags, Element.contentElements]
    exact tags_content hrest
  | .child e :: rest, id, next, indent, nodes, h => by
    rw [content] at h
    obtain ⟨⟨t, middle⟩, helement, h⟩ := of_bind h
    obtain ⟨⟨others, after⟩, hrest, h⟩ := of_bind h
    cases h
    rw [Tag.contentTags, Element.contentElements, List.map_append, List.map_append,
      tags_element helement, tags_content hrest]

end

end Compile

namespace Document

/-- Wherever it stands, the reader reports the number of bytes that it has passed. -/
def ReportsOffsets (source : String) : Prop :=
  ∀ before rest, source.toList = before ++ rest → reported source rest = Text.byteSize before

/-- Only a byte order mark is not counted. -/
theorem reportsOffsets_iff {source : String} :
    ReportsOffsets source ↔ source.toList.head? ≠ some '\ufeff' := by
  unfold ReportsOffsets reported
  cases source.toList with
  | nil =>
    refine ⟨fun _ => nofun, fun _ before rest h => ?_⟩
    obtain ⟨rfl, rfl⟩ := List.nil_eq_append_iff.1 h
    rfl
  | cons c text =>
    have hhead : (c :: text).head? ≠ some '\ufeff' ↔ c ≠ '\ufeff' := by simp
    rw [hhead]
    constructor
    · rintro h rfl
      have hmark := h ['\ufeff'] text rfl
      rw [withoutMark, if_pos rfl, Nat.sub_self] at hmark
      cases hmark
    · intro hc before rest h
      rw [withoutMark, if_neg hc, h, Text.byteSize_append, Nat.add_sub_cancel]

theorem withoutMark_of_reportsOffsets {source : String} (h : ReportsOffsets source) :
    withoutMark source.toList = source.toList := by
  have hhead := reportsOffsets_iff.1 h
  generalize source.toList = text at hhead
  cases text with
  | nil => rfl
  | cons c rest => exact if_neg fun hc => hhead (congrArg some hc)

/-- The elements of a document are the opening tags of its text in their order. The line of each,
and of the tag that it is compiled to, is one more than the number of line breaks before its tag. -/
theorem lines_of_read {source : String} {document : Document} (h : read source = .ok document)
    (hoffsets : ReportsOffsets source) :
    readCounting source = .ok document ∧
    (∃ events, IsCut [] source.toList events ∧
      (∀ tag ∈ openings events, StandsIn source.toList tag) ∧
      List.Forall₂ (fun e tag => e.IsOpenedBy tag.2 ∧ e.line = 1 + tag.1.count '\n')
        document.root.elements (openings events)) ∧
    ∀ path lead template, Template.compile path lead source = .ok template →
      template.root.tags.map (fun t => (t.name, t.line)) =
        document.root.elements.map fun e => (e.name, e.line) := by
  have hline (before rest : List Char) (heq : before ++ rest = source.toList) :
      lineAfter (reported source rest) source.toList = 1 + before.count '\n' := by
    rw [hoffsets before rest heq.symm, ← heq, lineAfter_append]
  have hread : readFrom (fun rest => lineAfter (reported source rest) source.toList)
      ⟨[], none, []⟩ source.toList = .ok document := by
    rw [← h, read, withoutMark_of_reportsOffsets hoffsets]
    unfold reported
    rw [withoutMark_of_reportsOffsets hoffsets]
  refine ⟨(readCounting_eq source).trans h, ?_, fun path lead template htemplate => ?_⟩
  · obtain ⟨events, heads, hcut, hheads, htags⟩ :=
      Builder.heads_of_readFrom hread [] hline
    refine ⟨events, hcut, standsIn_of_isCut hcut, ?_⟩
    have hstart : Builder.heads ⟨[], none, []⟩ = [] := rfl
    rw [hstart, List.nil_append] at hheads
    rw [← hheads, List.forall₂_map_left_iff] at htags
    exact htags.imp fun e tag htag => ⟨⟨htag.name, htag.attributes⟩, htag.line⟩
  · rw [Template.compile, h] at htemplate
    obtain ⟨setting, next, hroot, -⟩ := Template.of_ofDocument htemplate
    exact Compile.tags_element hroot

/-- Line breaks in all that comes before tags: between them, in a declaration, a comment, a tag, a
text and character data. -/
def brokenText : String :=
  "<?xml version='1.0'\n?>\n<!-- \n --><a\n x='1'>t &amp;\n<![CDATA[\n]]><b\n/></a>\n"

theorem lines_of_read_brokenText :
    ∃ document template, read brokenText = .ok document ∧ ReportsOffsets brokenText ∧
      Template.compile "page.xml" "fig:" brokenText = .ok template ∧
      template.root.tags.map (fun t => (t.name, t.line)) = [("a", 4), ("b", 7)] ∧
      ∃ events, IsCut [] brokenText.toList events ∧
        List.Forall₂ (fun e tag => e.IsOpenedBy tag.2 ∧ e.line = 1 + tag.1.count '\n')
          document.root.elements (openings events) := by
  have hoffsets : ReportsOffsets brokenText := reportsOffsets_iff.2 (by decide +kernel)
  have htests : (read brokenText).toOption.any fun document =>
      (Template.compile "page.xml" "fig:" brokenText).isOk &&
        document.root.elements.map (fun e => (e.name, e.line)) == [("a", 4), ("b", 7)] := by
    decide +kernel
  obtain ⟨document, hread, htests⟩ := Outcome.exists_of_any htests
  obtain ⟨hcompile, hlines⟩ := Bool.and_eq_true_iff.1 htests
  obtain ⟨-, ⟨events, hcut, -, htags⟩, htemplate⟩ := lines_of_read hread hoffsets
  cases hresult : Template.compile "page.xml" "fig:" brokenText with
  | error fault =>
    rw [hresult] at hcompile
    cases hcompile
  | ok template =>
    refine ⟨document, template, hread, hoffsets, rfl, ?_, events, hcut, htags⟩
    rw [htemplate _ _ _ hresult, eq_of_beq hlines]

end Document

end XmlTemplate
