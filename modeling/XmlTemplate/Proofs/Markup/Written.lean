import XmlTemplate.Proofs.Markup.ReadBack

/-!
# What is read back stands

Writing what was read never makes more of it: as far as characters are no blanks, what an event adds
is no longer than the event was. So where markup is read as what it was written from, all events add
as much as they take up, and each of them is written just as it was read. Then every text and every
tag of what was written stands for itself.
-/

namespace XmlTemplate

theorem Element.contentMarkup_append (before after : List (Node Element)) :
    contentMarkup (before ++ after) = contentMarkup before ++ contentMarkup after := by
  induction before with
  | nil => simp [contentMarkup]
  | cons node before ih => cases node <;> simp [contentMarkup, ih, String.append_assoc]

namespace Markup

/-! ## Characters that are no blanks -/

/-- Number of characters that are no blanks. -/
def visible (text : List Char) : Nat := text.countP (!isBlank ·)

variable {text rest : List Char}

@[simp] theorem visible_nil : visible [] = 0 := rfl

@[simp] theorem visible_append (text rest : List Char) :
    visible (text ++ rest) = visible text + visible rest := List.countP_append

@[simp] theorem visible_cons (c : Char) (text : List Char) :
    visible (c :: text) = visible text + if isBlank c then 0 else 1 := by
  cases h : isBlank c <;> simp [visible, h]

theorem visible_dropWhile (text : List Char) : visible (text.dropWhile isBlank) = visible text := by
  induction text with
  | nil => rfl
  | cons c text ih => cases h : isBlank c <;> simp [h, ih]

theorem visible_closingName (content : List Char) :
    visible (Event.closingName content) = visible content := by
  have hend (text : List Char) : visible (Text.dropWhileEnd isBlank text) = visible text := by
    induction text with
    | nil => rfl
    | cons c text ih =>
      rw [Text.dropWhileEnd]
      split
      · rename_i hnone
        rw [hnone] at ih
        cases h : isBlank c <;> simp [h, ← ih]
      · simp [ih]
  unfold Event.closingName
  split
  · rfl
  · rename_i hother
    exact hend content

theorem visible_afterEquals {size : Nat} (h : Attribute.afterEquals size text = .ok rest) :
    visible text = visible rest + 1 := by
  unfold Attribute.afterEquals at h
  split at h
  · rename_i after heq
    cases h
    rw [← visible_dropWhile, heq]
    simp [isBlank]
  · cases h

theorem visible_value {size : Nat} {found : List Char}
    (h : Attribute.value size text = .ok (found, rest)) :
    visible text = visible found + visible rest + 2 := by
  unfold Attribute.value at h
  split at h
  · cases h
  · rename_i c after heq
    split at h
    · rename_i hquote
      split at h
      · rename_i hcut
        cases h
        obtain ⟨d, hd, rfl, -⟩ := Text.of_cutAt? hcut
        cases eq_of_beq hd
        have hblank : isBlank c = false := by
          rcases (by simpa [isQuote] using hquote : c = '\'' ∨ c = '"') with rfl | rfl <;> rfl
        rw [← visible_dropWhile, heq]
        simp only [visible_cons, visible_append, hblank]
        simp
        omega
      · cases h
    · cases h

/-- Attributes are written with the characters that they were read from, up to blanks and the kind
of quotes. -/
theorem visible_attributesChars {size : Nat} {seen : List (List Char × Nat)}
    {attributes : List (String × String)} (h : Attribute.readFrom size seen text = .ok attributes) :
    visible (attributesChars attributes) = visible text := by
  fun_induction Attribute.readFrom size seen text generalizing attributes with
  | case1 =>
    rename_i seen text hnone
    cases h
    rw [← visible_dropWhile text, hnone]
    rfl
  | case2 | case3 | case4 | case5 => cases h
  | case6 =>
    rename_i seen text c rest hstart key offset afterKey hequals hnew found after hvalue others
      hothers ih
    cases h
    have hkey : c :: rest = key ++ rest.dropWhile (!Attribute.endsKey ·) := by
      rw [List.cons_append, List.takeWhile_append_dropWhile]
    have htext : visible text = visible key + visible found + visible after + 3 := by
      rw [← visible_dropWhile text, hstart, hkey, visible_append, visible_afterEquals hequals,
        visible_value hvalue]
      omega
    have hwritten := attributesChars_cons (String.ofList key, String.ofList found) others []
    rw [List.append_nil] at hwritten
    rw [hwritten, htext]
    simp only [visible_cons, visible_append, String.toList_ofList, List.append_nil, ih hothers]
    simp [isBlank]
    omega

/-- Up to blanks and the kind of quotes, a tag is written with the characters of its body. -/
theorem visible_tagChars {body : List Char} {attributes : List (String × String)}
    (h : Attribute.readAll body = .ok attributes) :
    visible (tagName body ++ attributesChars attributes) = visible body := by
  have hbody : body = tagName body ++ afterName body := List.takeWhile_append_dropWhile.symm
  rw [visible_append, visible_attributesChars h, ← visible_append, ← hbody]

/-! ## Events -/

/-- How an event within an element is written again. -/
def Event.rewritten : Event → List Char
  | .text run => run
  | .reference name => '&' :: (name ++ [';'])
  | .cdata content => content
  | .instruction _ | .ignored => []
  | .opening body selfClosing =>
    match Attribute.readAll body with
    | .ok attributes =>
      '<' :: (tagName body ++ attributesChars attributes ++
        if selfClosing then ['/', '>'] else ['>'])
    | .error _ => []
  | .closing name => '<' :: '/' :: (name ++ ['>'])

/-- How something is written again, against what it was read from: the same, with fewer characters
that are no blanks, or with as many of them and with the end of a tag behind both. -/
inductive Respelled : (written read : List Char) → Prop
  | same {read : List Char} : Respelled read read
  | fewer {written read : List Char} (h : visible written < visible read) : Respelled written read
  | tag {written read : List Char} (h : visible written = visible read) :
      Respelled (written ++ ['>']) (read ++ ['>'])

theorem Respelled.visible_le {written read : List Char} (h : Respelled written read) :
    visible written ≤ visible read := by
  cases h with
  | same => exact Nat.le_refl _
  | fewer h => exact Nat.le_of_lt h
  | tag h => simp [h]

/-- Two parts of one text with as many characters that are no blanks, and with one behind them, are
the same. -/
theorem eq_of_visible_eq {a b rest rest' : List Char} {c : Char} (hc : isBlank c = false)
    (h : a ++ c :: rest = b ++ c :: rest') (hvisible : visible a = visible b) : a = b := by
  rcases List.append_eq_append_iff.1 h with ⟨middle, rfl, hmiddle⟩ | ⟨middle, rfl, hmiddle⟩
  · cases middle with
    | nil => simp
    | cons d middle =>
      cases hmiddle
      simp [hc] at hvisible
  · cases middle with
    | nil => simp
    | cons d middle =>
      cases hmiddle
      simp [hc] at hvisible

/-- Where all that follows has no more characters that are no blanks, an event is written as it was
read. -/
theorem Respelled.eq_of_append {written read tail after : List Char} (h : Respelled written read)
    (happend : written ++ tail = read ++ after) (htail : visible tail ≤ visible after) :
    written = read := by
  have htotal := congrArg visible happend
  rw [visible_append, visible_append] at htotal
  cases h with
  | same => rfl
  | fewer h => omega
  | tag h =>
    rw [List.append_assoc, List.append_assoc] at happend
    rw [eq_of_visible_eq (by decide) happend h]

/-- How a tag is written again, if its attributes are read. -/
theorem Event.rewritten_opening {body : List Char} {attributes : List (String × String)}
    (h : Attribute.readAll body = .ok attributes) (selfClosing : Bool) :
    (opening body selfClosing).rewritten = '<' :: (tagName body ++ attributesChars attributes ++
      if selfClosing then ['/', '>'] else ['>']) := by
  simp only [rewritten, h]

theorem Event.rewritten_of_text? {event : Event} {text : List Char}
    (h : event.text? = some text) : event.rewritten = text := by
  cases event <;> cases h <;> rfl

theorem Event.respelled {event : Event} {piece : List Char} (h : event.IsSpelled piece)
    (hread : ∀ body selfClosing, event = .opening body selfClosing →
      ∃ attributes, Attribute.readAll body = .ok attributes) : Respelled event.rewritten piece := by
  cases h with
  | text => exact .same
  | reference => exact .same
  | cdata =>
    refine .fewer ?_
    simp [rewritten, isBlank]
    omega
  | instruction => exact .fewer (by simp [rewritten, isBlank])
  | @opening body =>
    obtain ⟨attributes, hattributes⟩ := hread body false rfl
    rw [rewritten_opening hattributes]
    have htag : Respelled ('<' :: (tagName body ++ attributesChars attributes) ++ ['>'])
        ('<' :: body ++ ['>']) :=
      .tag (by rw [visible_cons, visible_cons, visible_tagChars hattributes])
    simpa using htag
  | @single body =>
    obtain ⟨attributes, hattributes⟩ := hread body true rfl
    have htag : Respelled
        ('<' :: (tagName body ++ attributesChars attributes ++ ['/']) ++ ['>'])
        ('<' :: (body ++ ['/']) ++ ['>']) :=
      .tag (by simp only [visible_cons, visible_append _ ['/'], visible_tagChars hattributes])
    rw [rewritten_opening hattributes]
    simpa using htag
  | @closing content =>
    have htag : Respelled ('<' :: '/' :: closingName content ++ ['>'])
        ('<' :: '/' :: content ++ ['>']) :=
      .tag (by simp [visible_closingName])
    simpa [rewritten] using htag
  | ignored => exact .fewer (by simp [rewritten, isBlank])

/-! ## What is built -/

/-- An open element as it is written so far. -/
def OpenElement.written (e : OpenElement) : List Char :=
  '<' :: (e.name.toList ++ attributesChars e.attributes ++
    '>' :: (Element.contentMarkup e.content.reverse).toList)

namespace Builder

/-- What was built so far, as it is written. -/
def written (b : Builder) : List Char :=
  (b.root.elim [] fun root => root.markup.toList) ++ b.opened.reverse.flatMap OpenElement.written

variable {line : Nat} {b next : Builder}

theorem written_close {e : Element} (h : b.close e = .ok next) :
    next.written = b.written ++ e.markup.toList := by
  obtain ⟨opened, root, instructions⟩ := b
  cases opened with
  | cons parent outer =>
    cases h
    simp [written, OpenElement.written, Element.contentMarkup_append, Element.contentMarkup]
  | nil =>
    cases root with
    | none =>
      cases h
      simp [written]
    | some root => cases h

theorem contentMarkup_addText (text : String) (content : List (Node Element)) :
    Element.contentMarkup (addText text content).reverse =
      Element.contentMarkup content.reverse ++ text := by
  unfold addText
  split <;> simp [Element.contentMarkup_append, Element.contentMarkup, String.append_assoc]

theorem written_append {text : List Char} (h : b.append text = .ok next) :
    next.written = b.written ++ text ∨ b.opened = [] ∧ next = b := by
  obtain ⟨opened, root, instructions⟩ := b
  cases opened with
  | cons parent outer =>
    cases h
    simp [written, OpenElement.written, contentMarkup_addText]
  | nil =>
    simp only [append] at h
    split at h
    · cases h
      exact .inr ⟨rfl, rfl⟩
    · cases h

/-- An event adds what it is written as again, but for blanks outside of the root. -/
theorem written_step {event : Event} (h : b.step line event = .ok next) :
    next.written = b.written ++ event.rewritten ∨ b.opened = [] ∧ next = b := by
  cases isStep_of_step h with
  | text htext happend =>
    rw [Event.rewritten_of_text? htext]
    exact written_append happend
  | instruction => exact .inl (List.append_nil _).symm
  | ignored => exact .inl (List.append_nil _).symm
  | single hattributes hclose =>
    left
    rw [Event.rewritten_opening hattributes, written_close hclose,
      Element.toList_markup fun _ => rfl]
    simp [Element.tagChars]
  | opening hattributes =>
    left
    rw [Event.rewritten_opening hattributes]
    simp [written, OpenElement.written, Element.contentMarkup]
  | @closing e outer next hopened hclose =>
    left
    rw [written_close hclose,
      Element.toList_markup (e := ⟨e.name, e.attributes, e.line, false, _⟩) (by simp)]
    simp [written, hopened, OpenElement.written, Element.tagChars, Event.rewritten]

theorem exists_readAll_of_step {body : List Char} {selfClosing : Bool}
    (h : b.step line (.opening body selfClosing) = .ok next) :
    ∃ attributes, Attribute.readAll body = .ok attributes := by
  cases isStep_of_step h with
  | text htext => cases htext
  | single hattributes => exact ⟨_, hattributes⟩
  | opening hattributes => exact ⟨_, hattributes⟩

theorem respelled_of_step {event : Event} {piece : List Char} (hspelled : event.IsSpelled piece)
    (h : b.step line event = .ok next) : Respelled event.rewritten piece :=
  Event.respelled hspelled fun _ _ hevent => exists_readAll_of_step (hevent ▸ h)

variable {lineOf : List Char → Nat} {document : Document}

/-- What is written of a document goes on from what was built, with no more characters that are no
blanks than are left of the text. -/
theorem exists_tail_of_readFrom (h : readFrom lineOf b text = .ok document) :
    ∃ tail, document.root.markup.toList = b.written ++ tail ∧ visible tail ≤ visible text := by
  fun_induction readFrom lineOf b text with
  | case1 b =>
    rw [of_finish (Outcome.of_mapError h)]
    exact ⟨[], by simp [written], Nat.le_refl 0⟩
  | case2 => cases h
  | case3 => cases h
  | case4 b c rest event after hnext next hstep ih =>
    obtain ⟨tail, htail, hle⟩ := ih h
    obtain ⟨piece, hpiece, hspelled⟩ := Event.isSpelled_of_next hnext
    have hshorter := (respelled_of_step hspelled hstep).visible_le
    rw [hpiece, visible_append]
    rcases written_step hstep with hwritten | ⟨-, rfl⟩
    · refine ⟨event.rewritten ++ tail, ?_, ?_⟩
      · rw [htail, hwritten, List.append_assoc]
      · rw [visible_append]
        omega
    · exact ⟨tail, htail, by omega⟩

/-- The root has a property, or the open element that becomes it will have, whatever is in it. -/
def HasRoot (P : Element → Prop) (b : Builder) : Prop :=
  (∃ e, b.root = some e ∧ P e) ∨
    b.root = none ∧ ∃ e, b.opened.getLast? = some e ∧
      ∀ content, P ⟨e.name, e.attributes, e.line, false, content⟩

variable {P : Element → Prop}

theorem HasRoot.content {parent : OpenElement} {outer : List OpenElement} {root : Option Element}
    {instructions : List String} (h : HasRoot P ⟨parent :: outer, root, instructions⟩)
    (content : List (Node Element)) :
    HasRoot P ⟨{ parent with content } :: outer, root, instructions⟩ := by
  rcases h with h | ⟨hroot, e, he, hP⟩
  · exact .inl h
  · cases outer with
    | nil =>
      cases he
      exact .inr ⟨hroot, _, rfl, hP⟩
    | cons inner outer => exact .inr ⟨hroot, e, by simpa using he, hP⟩

theorem HasRoot.append (hb : b.HasRoot P) {text : List Char} (h : b.append text = .ok next) :
    next.HasRoot P := by
  obtain ⟨opened, root, instructions⟩ := b
  cases opened with
  | cons parent outer =>
    cases h
    exact hb.content _
  | nil =>
    simp only [Builder.append] at h
    split at h
    · cases h
      exact hb
    · cases h

/-- A child is closed within the root. -/
theorem HasRoot.close (hb : b.HasRoot P) {e : Element} (h : b.close e = .ok next) :
    next.HasRoot P := by
  obtain ⟨opened, root, instructions⟩ := b
  cases opened with
  | cons parent outer =>
    cases h
    exact hb.content _
  | nil =>
    cases root with
    | none =>
      rcases hb with ⟨_, hroot, -⟩ | ⟨-, _, hlast, -⟩
      · cases hroot
      · cases hlast
    | some root => cases h

theorem HasRoot.step {event : Event} (hb : b.HasRoot P) (h : b.step line event = .ok next) :
    next.HasRoot P := by
  cases isStep_of_step h with
  | text _ happend => exact hb.append happend
  | instruction => exact hb
  | ignored => exact hb
  | single _ hclose => exact hb.close hclose
  | opening =>
    rcases hb with hb | ⟨hroot, e, hlast, hP⟩
    · exact .inl hb
    · refine .inr ⟨hroot, e, ?_, hP⟩
      rw [List.getLast?_cons, hlast]
      rfl
  | @closing e outer next hopened hclose =>
    obtain ⟨opened, root, instructions⟩ := b
    cases hopened
    cases outer with
    | cons parent outer =>
      refine HasRoot.close (b := ⟨parent :: outer, root, instructions⟩) ?_ hclose
      rcases hb with hb | ⟨hroot, e, hlast, hP⟩
      · exact .inl hb
      · exact .inr ⟨hroot, e, by simpa using hlast, hP⟩
    | nil =>
      rcases hb with ⟨root', hroot, -⟩ | ⟨hroot, e', hlast, hP⟩
      · cases hroot
        cases hclose
      · cases hroot
        cases hlast
        cases hclose
        exact .inl ⟨_, rfl, hP _⟩

theorem HasRoot.readFrom (hb : b.HasRoot P) (h : readFrom lineOf b text = .ok document) :
    P document.root := by
  fun_induction Markup.readFrom lineOf b text with
  | case1 b =>
    rw [of_finish (Outcome.of_mapError h)] at hb
    rcases hb with ⟨root, hroot, hP⟩ | ⟨hroot, -⟩
    · cases hroot
      exact hP
    · cases hroot
  | case2 => cases h
  | case3 => cases h
  | case4 b c rest event after hnext next hstep ih => exact ih (hb.step hstep) h

end Builder

/-! ## Sources -/

theorem IsSource.append {a b : List Char} (ha : IsSource a) (hb : IsSource b) :
    IsSource (a ++ b) := by
  refine ⟨by simp [ha.start], ?_, fun rest hrest => ?_⟩
  · rw [List.mem_append, not_or]
    exact ⟨ha.tags, hb.tags⟩
  · obtain ⟨before, hsplit⟩ := hrest
    rcases List.append_eq_append_iff.1 hsplit with ⟨middle, rfl, hmiddle⟩ | ⟨middle, rfl, rfl⟩
    · cases middle with
      | nil => exact hb.references rest ⟨[], hmiddle⟩
      | cons c middle =>
        obtain ⟨rfl, hrest⟩ := List.cons.inj hmiddle
        obtain ⟨⟨name, more⟩, hname⟩ := Option.isSome_iff_exists.1
          (ha.references middle ⟨before, rfl⟩)
        rw [hrest, List.append_eq, Event.reference?_append hname]
        rfl
    · exact hb.references rest ⟨middle, rfl⟩

theorem Event.reference?_name {name : List Char}
    (h : ∀ c ∈ name, c ≠ ';' ∧ c ≠ '&' ∧ c ≠ '<') :
    reference? (name ++ [';']) = some (name, []) := by
  induction name with
  | nil => rfl
  | cons c name ih =>
    obtain ⟨⟨hend, hother⟩, hname⟩ := List.forall_mem_cons.1 h
    rw [List.cons_append, reference?, if_neg hend, if_neg (not_or.2 hother), ih hname]
    rfl

/-- A run of text and a reference stand for themselves. -/
theorem Event.isSource_of_text {event : Event} {text : List Char} (h : event.IsSpelled text)
    (htext : event.text? = some text) : IsSource text := by
  cases h with
  | text start inside =>
    have hinside (c : Char) (hc : c ∈ text) : c ≠ '<' ∧ c ≠ '&' := by
      simpa [endsRun] using inside c hc
    refine ⟨start, fun hmem => (hinside _ hmem).1 rfl, fun rest hrest => ?_⟩
    exact absurd rfl (hinside _ (hrest.mem (List.mem_cons_self ..))).2
  | @reference name inside =>
    have hinside (c : Char) (hc : c ∈ name ++ [';']) : c ≠ '<' ∧ c ≠ '&' := by
      rcases List.mem_append.1 hc with hc | hc
      · exact ⟨(inside c hc).2.2, (inside c hc).2.1⟩
      · rw [List.mem_singleton.1 hc]
        decide
    refine ⟨List.cons_ne_nil _ _, fun hmem => ?_, fun rest hrest => ?_⟩
    · rcases List.mem_cons.1 hmem with hamp | hmem
      · cases hamp
      · exact (hinside _ hmem).1 rfl
    · rcases List.suffix_cons_iff.1 hrest with heq | hrest
      · rw [(List.cons.inj heq).2, reference?_name inside]
        rfl
      · exact absurd rfl (hinside _ (hrest.mem (List.mem_cons_self ..))).2
  | cdata =>
    have hlength := congrArg List.length (Option.some.inj htext)
    simp at hlength
    omega
  | _ => cases htext

end Markup

/-! ## Reading back -/

/-- The tags of the element stand, and so do all texts in it. -/
def Element.IsFaithful (e : Element) : Prop := e.TagsStand ∧ e.HoldsSources

namespace Markup

/-- What is known of an open element if its opening tag and all texts in it stand. -/
structure OpenElement.IsFaithful (e : OpenElement) : Prop where
  opening : Event.next '<' (e.name.toList ++ attributesChars e.attributes ++ ['>']) =
    .ok (.opening (e.name.toList ++ attributesChars e.attributes) false, [])
  name : String.ofList (tagName (e.name.toList ++ attributesChars e.attributes)) = e.name
  attributes : Attribute.readAll (e.name.toList ++ attributesChars e.attributes) =
    .ok e.attributes
  sources : ∀ text, .text text ∈ e.content → IsSource text.toList

/-- Text that stands for itself may be put behind other. -/
theorem Builder.isSource_addText {text : List Char} (htext : IsSource text)
    {content : List (Node Element)} (h : ∀ text, .text text ∈ content → IsSource text.toList) :
    ∀ other, .text other ∈ addText (String.ofList text) content → IsSource other.toList := by
  intro other hother
  unfold addText at hother
  split at hother
  · rename_i before rest
    rcases List.mem_cons.1 hother with hother | hother
    · cases hother
      rw [String.toList_append, String.toList_ofList]
      exact (h before (List.mem_cons_self ..)).append htext
    · exact h other (List.mem_cons_of_mem _ hother)
  · rcases List.mem_cons.1 hother with hother | hother
    · cases hother
      rwa [String.toList_ofList]
    · exact h other hother

/-- The body of a tag that is written as it was read. -/
theorem Event.body_eq_of_rewritten {body ending : List Char} {selfClosing : Bool}
    {attributes : List (String × String)} (hattributes : Attribute.readAll body = .ok attributes)
    (hending : ending = if selfClosing then ['/', '>'] else ['>'])
    (hwritten : (opening body selfClosing).rewritten = '<' :: (body ++ ending)) :
    tagName body ++ attributesChars attributes = body := by
  rw [rewritten_opening hattributes, ← hending] at hwritten
  exact List.append_cancel_right (List.cons.inj hwritten).2

/-- An event that is written as it was read keeps elements faithful. -/
theorem Event.keeps_isFaithful {line : Nat} {c : Char} {rest after piece : List Char}
    {event : Event} (hnext : next c rest = .ok (event, after)) (hpiece : c :: rest = piece ++ after)
    (hspelled : event.IsSpelled piece) (hwritten : event.rewritten = piece) :
    event.Keeps Element.IsFaithful OpenElement.IsFaithful line where
  single := fun body attributes hevent hattributes => by
    subst hevent
    cases hspelled
    have hbody := body_eq_of_rewritten hattributes rfl hwritten
    obtain ⟨rfl, rfl⟩ := List.cons.inj hpiece
    have htag := next_append (body ++ ['/']) (by simpa using hnext) rfl []
    refine ⟨⟨?_, ?_, ?_, by simp⟩, fun _ htext => (List.not_mem_nil htext).elim⟩
    all_goals simp only [Element.tagChars, String.toList_ofList, hbody]
    · simpa using htag
    · exact hattributes
  opening := fun body attributes hevent hattributes => by
    subst hevent
    cases hspelled
    have hbody := body_eq_of_rewritten hattributes rfl hwritten
    obtain ⟨rfl, rfl⟩ := List.cons.inj hpiece
    have htag := next_append body (by simpa using hnext) rfl []
    refine ⟨?_, ?_, ?_, fun _ htext => (List.not_mem_nil htext).elim⟩
    all_goals simp only [String.toList_ofList, hbody]
    · exact htag
    · exact hattributes
  closing := fun e hevent he => by
    subst hevent
    have hchars : c :: rest = '<' :: ('/' :: e.name.toList ++ '>' :: after) := by
      rw [hpiece, ← hwritten]
      simp [rewritten]
    obtain ⟨rfl, rfl⟩ := List.cons.inj hchars
    refine ⟨⟨he.opening, he.name, he.attributes, fun _ =>
      next_append ('/' :: e.name.toList) hnext rfl []⟩, ?_⟩
    exact fun text htext => he.sources text (List.mem_reverse.1 htext)
  text := fun e text htext he => by
    have hsource : IsSource text := by
      have hpart := rewritten_of_text? htext
      rw [← hpart, hwritten]
      exact isSource_of_text hspelled (by rw [htext, ← hpart, hwritten])
    exact ⟨he.opening, he.name, he.attributes, Builder.isSource_addText hsource he.sources⟩
  child := fun e child _ he =>
    ⟨he.opening, he.name, he.attributes, fun text htext => by
      rcases List.mem_cons.1 htext with htext | htext
      · cases htext
      · exact he.sources text htext⟩

namespace Builder

variable {lineOf : List Char → Nat} {b : Builder} {document : Document} {P : Element → Prop}

/-- Where what is written of a document is what was built and then the text, all in the text is
faithful. -/
theorem isFaithful_of_readFrom (hb : b.Holds Element.IsFaithful OpenElement.IsFaithful)
    (hroot : b.HasRoot P) (h : readFrom lineOf b text = .ok document)
    (hwritten : document.root.markup.toList = b.written ++ text) :
    ∀ u ∈ document.root.elements, u.IsFaithful := by
  fun_induction readFrom lineOf b text with
  | case1 b => exact hb.finish (Outcome.of_mapError h)
  | case2 => cases h
  | case3 => cases h
  | case4 b c rest event after hnext next hstep ih =>
    obtain ⟨piece, hpiece, hspelled⟩ := Event.isSpelled_of_next hnext
    rcases written_step hstep with hnextWritten | ⟨hopened, rfl⟩
    · obtain ⟨tail, htail, hle⟩ := exists_tail_of_readFrom h
      have happend : event.rewritten ++ tail = piece ++ after := by
        have hwhole : b.written ++ (event.rewritten ++ tail) = b.written ++ (piece ++ after) := by
          rw [← hpiece, ← hwritten, htail, hnextWritten, List.append_assoc]
        exact List.append_cancel_left hwhole
      have hsame := (respelled_of_step hspelled hstep).eq_of_append happend hle
      refine ih (hb.step (Event.keeps_isFaithful hnext hpiece hspelled hsame) hstep)
        (hroot.step hstep) h ?_
      rw [hwritten, hpiece, hnextWritten, hsame, List.append_assoc]
    · -- outside of an open element, the root is complete and nothing of the text is left
      rcases hroot with ⟨root, hroot, -⟩ | ⟨-, e, hlast, -⟩
      · have hcomplete : next.HasRoot (· = root) := .inl ⟨root, hroot, rfl⟩
        have hmarkup : next.written = root.markup.toList := by simp [written, hopened, hroot]
        rw [hcomplete.readFrom h, hmarkup] at hwritten
        cases List.append_right_eq_self.1 hwritten.symm
      · rw [hopened] at hlast
        cases hlast

end Builder

end Markup

open Markup

namespace Element

mutual

theorem markup_unlined : ∀ e : Element, e.unlined.markup = e.markup
  | ⟨name, attributes, line, selfClosing, children⟩ => by
    have hempty : (contentUnlined children).isEmpty = children.isEmpty := by
      cases children with
      | nil => rfl
      | cons node rest => cases node <;> rfl
    rw [unlined, markup, markup, contentMarkup_unlined children, hempty]

theorem contentMarkup_unlined : ∀ es : List (Node Element),
    contentMarkup (contentUnlined es) = contentMarkup es
  | [] => rfl
  | .text text :: rest => by
    rw [contentUnlined, contentMarkup, contentMarkup, contentMarkup_unlined rest]
  | .child e :: rest => by
    rw [contentUnlined, contentMarkup, contentMarkup, markup_unlined e,
      contentMarkup_unlined rest]

end

mutual

theorem elements_unlined : ∀ e : Element, e.unlined.elements = e.elements.map unlined
  | ⟨name, attributes, line, selfClosing, children⟩ => by
    rw [elements, List.map_cons, ← contentElements_unlined children]
    rfl

theorem contentElements_unlined : ∀ es : List (Node Element),
    contentElements (contentUnlined es) = (contentElements es).map unlined
  | [] => rfl
  | .text text :: rest => contentElements_unlined rest
  | .child e :: rest => by
    rw [contentUnlined, contentElements, contentElements, List.map_append, elements_unlined e,
      contentElements_unlined rest]

end

theorem mem_contentUnlined_iff {text : String} {es : List (Node Element)} :
    .text text ∈ contentUnlined es ↔ .text text ∈ es := by
  induction es with
  | nil => rfl
  | cons node es ih => cases node <;> simp [contentUnlined, ih]

/-- Lines do not matter for faithful elements. -/
theorem isFaithful_unlined_iff {e : Element} : e.unlined.IsFaithful ↔ e.IsFaithful := by
  have hsources : e.unlined.HoldsSources ↔ e.HoldsSources := by
    obtain ⟨⟩ := e
    simp only [HoldsSources, unlined, mem_contentUnlined_iff]
  have htags : e.unlined.TagsStand ↔ e.TagsStand := by
    obtain ⟨⟩ := e
    exact ⟨fun h => ⟨h.opening, h.name, h.attributes, h.closing⟩,
      fun h => ⟨h.opening, h.name, h.attributes, h.closing⟩⟩
  rw [IsFaithful, IsFaithful, hsources, htags]

theorem elements_eq (e : Element) : e.elements = e :: contentElements e.children := by
  obtain ⟨⟩ := e
  rfl

theorem toList_markup_of_wrapper {e : Element} (hname : e.name = wrapper.name)
    (hattributes : e.attributes = wrapper.attributes) (hsingle : e.selfClosing = false) :
    e.markup.toList = '<' :: (wrapper.tagChars ++ '>' :: ((contentMarkup e.children).toList ++
      '<' :: '/' :: (wrapper.name.toList ++ '>' :: []))) := by
  rw [toList_markup (by simp [hsingle]), tagChars, hname, hattributes, hsingle]
  simp [tagChars]

/-- An element that is read back is faithful in all that is in it. -/
theorem isFaithful_of_readsBack {e : Element} (h : e.ReadsBack) :
    e.HoldsSources ∧ ∀ u ∈ contentElements e.children, u.IsFaithful := by
  obtain ⟨document, hread, hunlined⟩ := h
  obtain ⟨lineOf, hreadFrom⟩ := Document.exists_read_eq e.toList_wrapped
  obtain ⟨line, hopening⟩ := readFrom_opening lineOf none [] tagsStand_wrapper rfl []
    ((contentMarkup e.children).toList ++ '<' :: '/' :: (wrapper.name.toList ++ '>' :: []))
  rw [hreadFrom, hopening] at hread
  let b : Builder := ⟨[⟨wrapper.name, wrapper.attributes, line, []⟩], none, []⟩
  have hroot : b.HasRoot fun e => e.name = wrapper.name ∧ e.attributes = wrapper.attributes ∧
      e.selfClosing = false :=
    .inr ⟨rfl, _, rfl, fun _ => ⟨rfl, rfl, rfl⟩⟩
  have hfaithful : b.Holds IsFaithful OpenElement.IsFaithful := by
    refine ⟨List.forall_mem_singleton.2 ?_, List.forall_mem_singleton.2 nofun, nofun⟩
    exact ⟨tagsStand_wrapper.opening, tagsStand_wrapper.name, tagsStand_wrapper.attributes, nofun⟩
  obtain ⟨hname, hattributes, hsingle⟩ := hroot.readFrom hread
  have hmarkup : contentMarkup document.root.children = contentMarkup e.children := by
    rw [← contentMarkup_unlined, hunlined, contentMarkup_unlined]
  have hall := Builder.isFaithful_of_readFrom hfaithful hroot hread (by
    rw [toList_markup_of_wrapper hname hattributes hsingle, hmarkup]
    simp [b, Builder.written, OpenElement.written, wrapper, tagChars, contentMarkup])
  refine ⟨?_, fun u hu => ?_⟩
  · have hself := (hall _ (by rw [elements_eq]; exact List.mem_cons_self ..)).2
    intro text htext
    refine hself text (mem_contentUnlined_iff.1 ?_)
    rw [hunlined]
    exact mem_contentUnlined_iff.2 htext
  · have hmem : u.unlined ∈ (contentElements document.root.children).map unlined := by
      rw [← contentElements_unlined, hunlined, contentElements_unlined]
      exact List.mem_map_of_mem hu
    obtain ⟨u', hu', heq⟩ := List.mem_map.1 hmem
    have hu' := hall u' (by rw [elements_eq]; exact List.mem_cons_of_mem _ hu')
    rwa [← isFaithful_unlined_iff, heq, isFaithful_unlined_iff] at hu'

end Element

/-! ## Plain names -/

namespace Markup.Attribute

variable {size : Nat} {seen : List (List Char × Nat)}

/-- An attribute with a plain key, as it is written, is read up to the next double quote. -/
theorem of_readFrom_cons {key text : List Char} {p : String × String}
    {others : List (String × String)} (hkey : IsPlainName key)
    (h : readFrom size seen (' ' :: (key ++ '=' :: '"' :: text)) = .ok (p :: others)) :
    ∃ rest offset, Text.cutAt? (· == '"') text = some (p.2.toList, rest) ∧
      readFrom size ((key, offset) :: seen) rest = .ok others := by
  obtain ⟨c, more, rfl⟩ := List.exists_cons_of_ne_nil hkey.1
  obtain ⟨hblank, -⟩ := isNamePart_iff.1 (hkey.2 c (List.mem_cons_self ..))
  have hstart : (' ' :: (c :: more ++ '=' :: '"' :: text)).dropWhile isBlank =
      c :: (more ++ '=' :: '"' :: text) := by
    have hspace : isBlank ' ' = true := rfl
    simp [List.dropWhile, hspace, hblank]
  obtain ⟨htake, hdrop⟩ := key_append (fun d hd => hkey.2 d (List.mem_cons_of_mem _ hd))
    ('"' :: text)
  have hequals : afterEquals size ('=' :: '"' :: text) = .ok ('"' :: text) := rfl
  rw [readFrom] at h
  split at h
  · cases h
  · rename_i d rest hcons
    rw [hstart] at hcons
    cases hcons
    simp only [htake] at h
    split at h
    · cases h
    · rename_i afterKey hafter
      rw [hdrop, hequals] at hafter
      cases hafter
      split at h
      · cases h
      · split at h
        · cases h
        · rename_i found rest hvalue
          split at h
          · cases h
          · rename_i hothers
            cases h
            refine ⟨rest, _, ?_, hothers⟩
            unfold value at hvalue
            split at hvalue
            · rename_i hnone
              cases hnone
            · rename_i q after hquote
              cases hquote
              split at hvalue
              · split at hvalue
                · rename_i hcut
                  cases hvalue
                  rw [String.toList_ofList]
                  exact hcut
                · cases hvalue
              · cases hvalue

theorem notMem_of_readFrom {attributes : List (String × String)}
    (hkeys : ∀ p ∈ attributes, IsPlainName p.1.toList)
    (h : readFrom size seen (attributesChars attributes) = .ok attributes) :
    ∀ p ∈ attributes, '"' ∉ p.2.toList := by
  induction attributes generalizing seen with
  | nil => exact nofun
  | cons p others ih =>
    obtain ⟨hkey, hothers⟩ := List.forall_mem_cons.1 hkeys
    have hchars := attributesChars_cons p others []
    rw [List.append_nil, List.append_nil] at hchars
    rw [hchars] at h
    obtain ⟨rest, offset, hcut, hread⟩ := of_readFrom_cons hkey h
    obtain ⟨c, hc, hsplit, hvalue⟩ := Text.of_cutAt? hcut
    have hquote : '"' ∉ p.2.toList := fun hmem => by simpa using hvalue _ hmem
    cases eq_of_beq hc
    cases List.append_cancel_left hsplit
    exact List.forall_mem_cons.2 ⟨hquote, ih hothers hread⟩

end Markup.Attribute

instance (e : Element) : Decidable e.HasPlainNames :=
  decidable_of_iff (IsPlainName e.name.toList ∧ ∀ p ∈ e.attributes, IsPlainName p.1.toList)
    ⟨fun h => ⟨h.1, h.2⟩, fun h => ⟨h.1, h.2⟩⟩

/-- With plain names, the tags of an element stand just if no value holds a double quote. -/
theorem Element.tagsStand_iff {e : Element} (h : e.HasPlainNames)
    (hnodup : (e.attributes.map Prod.fst).Nodup) :
    e.TagsStand ↔ ∀ p ∈ e.attributes, '"' ∉ p.2.toList := by
  refine ⟨fun hstands => ?_, .of_hasPlainNames h hnodup⟩
  have hread := hstands.attributes
  have hname := (Attribute.name_append h.name.2 [] nofun e.attributes).2
  rw [List.append_nil, List.append_nil] at hname
  rw [tagChars, Attribute.readAll, hname] at hread
  exact Attribute.notMem_of_readFrom h.keys hread

/-- What a document holds is read back from what is written of it, up to lines, just if each text in
it stands for itself and the tags of each element stand. With plain names, they stand just if no
value holds a double quote. -/
theorem Document.readsBack_iff {source : String} {document : Document}
    (h : Document.read source = .ok document) :
    (document.root.ReadsBack ↔
      (∀ e ∈ document.root.elements, e.HoldsSources) ∧
        ∀ e ∈ Element.contentElements document.root.children, e.TagsStand) ∧
    ∀ e ∈ document.root.elements, e.HasPlainNames →
      (e.TagsStand ↔ ∀ p ∈ e.attributes, '"' ∉ p.2.toList) := by
  have htidy := isTidy_of_read h
  have hnodup := nodup_of_read h
  refine ⟨⟨fun hback => ?_, fun ⟨hsources, htags⟩ => ?_⟩, fun e he hnames => ?_⟩
  · obtain ⟨hroot, hchildren⟩ := Element.isFaithful_of_readsBack hback
    rw [Element.elements_eq]
    exact ⟨List.forall_mem_cons.2 ⟨hroot, fun e he => (hchildren e he).2⟩,
      fun e he => (hchildren e he).1⟩
  · rw [Element.elements_eq] at htidy hsources
    obtain ⟨hroot, hrootSources⟩ := List.forall_mem_cons.1 hsources
    obtain ⟨hrootTidy, hchildren⟩ := List.forall_mem_cons.1 htidy
    exact Element.readsBack_of_isReadable hrootTidy hroot fun u hu =>
      ⟨hchildren u hu, hrootSources u hu, htags u hu⟩
  · exact Element.tagsStand_iff hnames (hnodup e he)

/-- Neither a value with a double quote, which was between single quotes, nor character data that
looks like a tag is read back. -/
theorem Document.readsBack_iff_quotedValue :
    (∃ document, Document.read "<a><b t='x\"y'/></a>" = .ok document ∧
      ¬document.root.ReadsBack) ∧
    ∃ document, Document.read "<a><![CDATA[<b/>]]></a>" = .ok document ∧
      ¬document.root.ReadsBack := by
  constructor
  · have hread : (Document.read "<a><b t='x\"y'/></a>").toOption.any fun (document : Document) =>
        decide (∃ e ∈ Element.contentElements document.root.children, e.HasPlainNames ∧
          ∃ p ∈ e.attributes, '"' ∈ p.2.toList) := by
      decide +kernel
    obtain ⟨document, hread, htest⟩ := Outcome.exists_of_any hread
    obtain ⟨e, he, hnames, p, hp, hquote⟩ := of_decide_eq_true htest
    refine ⟨document, hread, fun hback => ?_⟩
    obtain ⟨hiff, hplain⟩ := readsBack_iff hread
    have hmem : e ∈ document.root.elements := by
      rw [Element.elements_eq]
      exact List.mem_cons_of_mem _ he
    exact (hplain e hmem hnames).1 ((hiff.1 hback).2 e he) p hp hquote
  · have hread : (Document.read "<a><![CDATA[<b/>]]></a>").toOption.any fun document =>
        document.root.children.any fun
          | .text text => text.toList.contains '<'
          | .child _ => false := by
      decide +kernel
    obtain ⟨document, hread, htest⟩ := Outcome.exists_of_any hread
    obtain ⟨node, hnode, htest⟩ := List.any_eq_true.1 htest
    refine ⟨document, hread, fun hback => ?_⟩
    have hsources := ((readsBack_iff hread).1.1 hback).1 document.root
      (by rw [Element.elements_eq]; exact List.mem_cons_self ..)
    cases node with
    | text text => exact (hsources text hnode).tags (List.contains_iff_mem.1 htest)
    | child e => cases htest

end XmlTemplate
