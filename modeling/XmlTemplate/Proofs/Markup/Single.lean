import Mathlib.Data.List.TakeWhile
import XmlTemplate.Markup.Reader

/-!
# Single tags

An element without content that is written as a single tag is read back as it was, if its names are
plain, no two attributes have one name, and no value holds a double quote. What the values hold
otherwise does not matter.
-/

namespace XmlTemplate

namespace Markup

/-- Characters of names that mean nothing else anywhere in a tag. -/
def isNamePart (c : Char) : Bool :=
  !isBlank c && !isQuote c && !(['=', '>', '/', '!', '?'].contains c)

/-- A name that ends nowhere before its end. -/
def IsPlainName (name : List Char) : Prop := name ≠ [] ∧ ∀ c ∈ name, isNamePart c = true

instance (name : List Char) : Decidable (IsPlainName name) :=
  decidable_of_iff (name ≠ [] ∧ name.all isNamePart = true) (by simp [IsPlainName])

/-- An attribute that can be written with double quotes. -/
structure IsWritable (p : String × String) : Prop where
  plain : IsPlainName p.1.toList
  quoted : '"' ∉ p.2.toList

instance (p : String × String) : Decidable (IsWritable p) :=
  decidable_of_iff (IsPlainName p.1.toList ∧ '"' ∉ p.2.toList)
    ⟨fun h => ⟨h.1, h.2⟩, fun h => ⟨h.1, h.2⟩⟩

/-- An attribute with a blank in front. -/
def attributeChars (p : String × String) : List Char :=
  ' ' :: (p.1.toList ++ '=' :: '"' :: (p.2.toList ++ ['"']))

/-- Attributes as a tag holds them. -/
def attributesChars (attributes : List (String × String)) : List Char :=
  attributes.flatMap attributeChars

theorem isNamePart_iff {c : Char} : isNamePart c = true ↔
    isBlank c = false ∧ isQuote c = false ∧ c ≠ '=' ∧ c ≠ '>' ∧ c ≠ '/' ∧ c ≠ '!' ∧ c ≠ '?' := by
  simp [isNamePart, and_assoc]

theorem attributesChars_cons (p : String × String) (attributes : List (String × String))
    (rest : List Char) : attributesChars (p :: attributes) ++ rest =
      ' ' :: (p.1.toList ++ '=' :: '"' ::
        (p.2.toList ++ '"' :: (attributesChars attributes ++ rest))) := by
  simp [attributesChars, attributeChars]

-- ---------------------------------------------------------------------------
-- Bodies of tags
-- ---------------------------------------------------------------------------

namespace Event

variable {text rest body after : List Char}

/-- Outside of quotes, a character that is neither a quote nor the end belongs to the tag. -/
theorem tagBody_cons {c : Char} (hquote : isQuote c = false) (hend : c ≠ '>')
    (h : tagBody none rest = .ok (body, after)) :
    tagBody none (c :: rest) = .ok (c :: body, after) := by
  simp [tagBody, hquote, hend, h]

theorem tagBody_name (htext : ∀ c ∈ text, isNamePart c = true)
    (h : tagBody none rest = .ok (body, after)) :
    tagBody none (text ++ rest) = .ok (text ++ body, after) := by
  induction text with
  | nil => exact h
  | cons c text ih =>
    obtain ⟨-, hquote, -, hend, -⟩ := isNamePart_iff.1 (htext c (List.mem_cons_self ..))
    exact tagBody_cons hquote hend (ih fun d hd => htext d (List.mem_cons_of_mem _ hd))

/-- Up to the closing quote, all characters belong to the tag. -/
theorem tagBody_quoted (htext : '"' ∉ text) (h : tagBody none rest = .ok (body, after)) :
    tagBody (some '"') (text ++ '"' :: rest) = .ok (text ++ '"' :: body, after) := by
  induction text with
  | nil => simp [tagBody, h]
  | cons c text ih =>
    simp only [List.mem_cons, not_or] at htext
    have htail := ih htext.2
    simp [tagBody, Ne.symm htext.1, htail]

theorem tagBody_attributes {attributes : List (String × String)}
    (hattributes : ∀ p ∈ attributes, IsWritable p) (h : tagBody none rest = .ok (body, after)) :
    tagBody none (attributesChars attributes ++ rest) =
      .ok (attributesChars attributes ++ body, after) := by
  induction attributes with
  | nil => exact h
  | cons p attributes ih =>
    obtain ⟨hplain, hquoted⟩ := hattributes p (List.mem_cons_self ..)
    have htail := ih fun q hq => hattributes q (List.mem_cons_of_mem _ hq)
    have hvalue :
        tagBody none ('"' :: (p.2.toList ++ '"' :: (attributesChars attributes ++ rest))) =
          .ok ('"' :: (p.2.toList ++ '"' :: (attributesChars attributes ++ body)), after) := by
      have hinside := tagBody_quoted hquoted htail
      rw [tagBody]
      simp [isQuote, hinside]
    rw [attributesChars_cons, attributesChars_cons]
    refine tagBody_cons (by decide) (by decide) (tagBody_name hplain.2 ?_)
    exact tagBody_cons (by decide) (by decide) hvalue

theorem openingOf_concat (body : List Char) : openingOf (body ++ ['/']) = .opening body true := by
  simp [openingOf]

/-- A tag without a slash at its end is no single tag. -/
theorem openingOf_plain {name : List Char} (hname : IsPlainName name)
    (attributes : List (String × String)) :
    openingOf (name ++ attributesChars attributes) =
      .opening (name ++ attributesChars attributes) false := by
  refine if_neg ?_
  rcases List.eq_nil_or_concat attributes with rfl | ⟨others, p, rfl⟩
  · intro hlast
    have hslash : '/' ∈ name := List.mem_of_getLast? (by simpa [attributesChars] using hlast)
    obtain ⟨-, -, -, -, hne, -⟩ := isNamePart_iff.1 (hname.2 _ hslash)
    exact hne rfl
  · have hquote : name ++ attributesChars (others ++ [p]) = name ++ attributesChars others ++
        ' ' :: (p.1.toList ++ '=' :: '"' :: p.2.toList) ++ ['"'] := by
      simp [attributesChars, attributeChars]
    rw [List.concat_eq_append, hquote, List.getLast?_concat]
    decide

/-- A tag is one event, which goes on to where what follows its attributes ends. -/
theorem next_tag {name ending : List Char} {attributes : List (String × String)}
    (hname : IsPlainName name) (hattributes : ∀ p ∈ attributes, IsWritable p)
    (hend : tagBody none rest = .ok (ending, after)) :
    next '<' (name ++ attributesChars attributes ++ rest) =
      .ok (openingOf (name ++ attributesChars attributes ++ ending), after) := by
  have hbody := tagBody_name hname.2 (tagBody_attributes hattributes hend)
  obtain ⟨c, more, rfl⟩ := List.exists_cons_of_ne_nil hname.1
  obtain ⟨-, -, -, -, hslash, hmark, hquestion⟩ :=
    isNamePart_iff.1 (hname.2 c (List.mem_cons_self ..))
  rw [← List.append_assoc, ← List.append_assoc] at hbody
  rw [next, if_pos rfl, tag, hbody]
  all_goals simp_all

/-- A single tag is one event. -/
theorem next_single {name : List Char} {attributes : List (String × String)}
    (hname : IsPlainName name) (hattributes : ∀ p ∈ attributes, IsWritable p) :
    next '<' (name ++ attributesChars attributes ++ ['/', '>']) =
      .ok (.opening (name ++ attributesChars attributes) true, []) := by
  have hend : tagBody none ['/', '>'] = .ok (['/'], []) := rfl
  rw [next_tag hname hattributes hend, openingOf_concat]

end Event

-- ---------------------------------------------------------------------------
-- Attributes
-- ---------------------------------------------------------------------------

namespace Attribute

variable {size : Nat} {seen : List (List Char × Nat)} {attributes : List (String × String)}

/-- The key that a text starts with, up to the equals sign. -/
theorem key_append {key : List Char} (h : ∀ c ∈ key, isNamePart c = true) (rest : List Char) :
    (key ++ '=' :: rest).takeWhile (!endsKey ·) = key ∧
      (key ++ '=' :: rest).dropWhile (!endsKey ·) = '=' :: rest := by
  have hkey : ∀ c ∈ key, (!endsKey c) = true := by
    intro c hc
    obtain ⟨hblank, -, hequals, -⟩ := isNamePart_iff.1 (h c hc)
    simp [endsKey, hblank, hequals]
  rw [List.takeWhile_append_of_pos hkey, List.dropWhile_append_of_pos hkey]
  simp [endsKey]

theorem value_quoted {text : List Char} (h : '"' ∉ text) (rest : List Char) :
    value size ('"' :: (text ++ '"' :: rest)) = .ok (text, rest) := by
  have hcut : Text.cutAt? (· == '"') (text ++ '"' :: rest) = some (text, rest) := by
    refine Text.cutAt?_append (fun c hc => ?_) rfl rest
    exact beq_false_of_ne fun heq => h (heq ▸ hc)
  have hblank : ('"' :: (text ++ '"' :: rest)).dropWhile isBlank =
      '"' :: (text ++ '"' :: rest) := rfl
  simp [value, hblank, isQuote, hcut]

/-- One attribute is read, and then the others. -/
theorem readFrom_cons {key text after : List Char} {others : List (String × String)}
    (hkey : IsPlainName key) (htext : '"' ∉ text) (hnew : seen.lookup key = none)
    (hothers : ∀ offset, readFrom size ((key, offset) :: seen) after = .ok others) :
    readFrom size seen (' ' :: (key ++ '=' :: '"' :: (text ++ '"' :: after))) =
      .ok ((String.ofList key, String.ofList text) :: others) := by
  obtain ⟨c, more, rfl⟩ := List.exists_cons_of_ne_nil hkey.1
  obtain ⟨hblank, -⟩ := isNamePart_iff.1 (hkey.2 c (List.mem_cons_self ..))
  have hstart : (' ' :: (c :: more ++ '=' :: '"' :: (text ++ '"' :: after))).dropWhile isBlank =
      c :: (more ++ '=' :: '"' :: (text ++ '"' :: after)) := by
    have hspace : isBlank ' ' = true := rfl
    simp [List.dropWhile, hspace, hblank]
  obtain ⟨htake, hdrop⟩ := key_append (fun d hd => hkey.2 d (List.mem_cons_of_mem _ hd))
    ('"' :: (text ++ '"' :: after))
  have hequals : afterEquals size ('=' :: '"' :: (text ++ '"' :: after)) =
      .ok ('"' :: (text ++ '"' :: after)) := rfl
  rw [readFrom]
  split
  · rename_i hnil
    rw [hstart] at hnil
    cases hnil
  · rename_i d rest hcons
    rw [hstart] at hcons
    cases hcons
    simp only [htake]
    split
    · rename_i herror
      rw [hdrop, hequals] at herror
      cases herror
    · rename_i afterKey hafter
      rw [hdrop, hequals] at hafter
      cases hafter
      simp only [hnew]
      split
      · rename_i herror
        rw [value_quoted htext] at herror
        cases herror
      · rename_i found rest hvalue
        rw [value_quoted htext] at hvalue
        cases hvalue
        rw [hothers]

/-- Blanks behind the attributes do not matter. -/
theorem readFrom_attributesChars {blanks : List Char} (hblanks : ∀ c ∈ blanks, isBlank c = true)
    (hattributes : ∀ p ∈ attributes, IsWritable p)
    (hnew : ∀ p ∈ attributes, seen.lookup p.1.toList = none)
    (hnodup : (attributes.map Prod.fst).Nodup) :
    readFrom size seen (attributesChars attributes ++ blanks) = .ok attributes := by
  induction attributes generalizing seen with
  | nil =>
    rw [readFrom]
    split
    · rfl
    · rename_i hcons
      have hnil : blanks.dropWhile isBlank = [] := List.dropWhile_eq_nil_iff.2 hblanks
      cases hnil.symm.trans hcons
  | cons p attributes ih =>
    obtain ⟨hplain, hquoted⟩ := hattributes p (List.mem_cons_self ..)
    obtain ⟨hfirst, hnodup⟩ := List.nodup_cons.1 hnodup
    have hothers (offset : Nat) : readFrom size ((p.1.toList, offset) :: seen)
        (attributesChars attributes ++ blanks) = .ok attributes := by
      refine ih (fun q hq => hattributes q (List.mem_cons_of_mem _ hq)) (fun q hq => ?_) hnodup
      have hother : q.1.toList ≠ p.1.toList := by
        intro hsame
        have hmem : q.1 ∈ attributes.map Prod.fst := List.mem_map_of_mem hq
        rw [String.toList_inj.1 hsame] at hmem
        exact hfirst hmem
      have hbeq : (q.1.toList == p.1.toList) = false := by simpa using hother
      rw [List.lookup_cons, hbeq]
      exact hnew q (List.mem_cons_of_mem _ hq)
    rw [attributesChars_cons,
      readFrom_cons hplain hquoted (hnew p (List.mem_cons_self ..)) hothers]
    simp

/-- The name that a body starts with, up to its first attribute. -/
theorem name_append {name : List Char} (h : ∀ c ∈ name, isNamePart c = true) (blanks : List Char)
    (hblanks : ∀ c ∈ blanks, isBlank c = true) (attributes : List (String × String)) :
    tagName (name ++ attributesChars attributes ++ blanks) = name ∧
      afterName (name ++ attributesChars attributes ++ blanks) =
        attributesChars attributes ++ blanks := by
  have hname : ∀ c ∈ name, (!isBlank c) = true := by
    intro c hc
    simp [(isNamePart_iff.1 (h c hc)).1]
  rw [tagName, afterName, List.append_assoc, List.takeWhile_append_of_pos hname,
    List.dropWhile_append_of_pos hname]
  have hblank : isBlank ' ' = true := rfl
  cases attributes with
  | nil =>
    cases blanks with
    | nil => simp [attributesChars]
    | cons c blanks => simp [attributesChars, hblanks c (List.mem_cons_self ..)]
  | cons p attributes => simp [attributesChars, attributeChars, hblank]

theorem readAll_tag {name : List Char} (hname : IsPlainName name) (blanks : List Char)
    (hblanks : ∀ c ∈ blanks, isBlank c = true) (hattributes : ∀ p ∈ attributes, IsWritable p)
    (hnodup : (attributes.map Prod.fst).Nodup) :
    readAll (name ++ attributesChars attributes ++ blanks) = .ok attributes := by
  rw [readAll, (name_append hname.2 blanks hblanks attributes).2]
  exact readFrom_attributesChars hblanks hattributes (fun _ _ => rfl) hnodup

theorem readAll_single {name : List Char} (hname : IsPlainName name)
    (hattributes : ∀ p ∈ attributes, IsWritable p) (hnodup : (attributes.map Prod.fst).Nodup) :
    readAll (name ++ attributesChars attributes) = .ok attributes := by
  have htag := readAll_tag hname [] nofun hattributes hnodup
  rwa [List.append_nil] at htag

theorem tagName_single {name : List Char} (hname : IsPlainName name)
    (attributes : List (String × String)) :
    tagName (name ++ attributesChars attributes) = name := by
  have htag := (name_append hname.2 [] nofun attributes).1
  rwa [List.append_nil] at htag

end Attribute

-- ---------------------------------------------------------------------------
-- Documents
-- ---------------------------------------------------------------------------

/-- Each event is a step. -/
theorem readFrom_cons (lineOf : List Char → Nat) (b : Builder) (c : Char) (rest : List Char) :
    readFrom lineOf b (c :: rest) =
      match Event.next c rest with
      | .error problem => .error (lineOf (c :: rest), problem)
      | .ok (event, after) =>
        match b.step (lineOf (c :: rest)) event with
        | .error problem => .error (lineOf (c :: rest), problem)
        | .ok next => readFrom lineOf next after := by
  rw [readFrom]
  split
  · rename_i herror
    rw [herror]
  · rename_i event after hnext
    cases hstep : b.step (lineOf (c :: rest)) event <;> simp only [hnext, hstep]

/-- Reading goes on behind an event. -/
theorem readFrom_of_next {lineOf : List Char → Nat} {b next : Builder} {c : Char}
    {rest after : List Char} {event : Event} (hnext : Event.next c rest = .ok (event, after))
    (hstep : b.step (lineOf (c :: rest)) event = .ok next) :
    readFrom lineOf b (c :: rest) = readFrom lineOf next after := by
  rw [readFrom_cons, hnext]
  simp only [hstep]

theorem lineAfter_zero (text : List Char) : lineAfter 0 text = 1 := by
  cases text with
  | nil => rfl
  | cons c rest => simp [lineAfter]

end Markup

theorem Element.markup_single (name : String) (attributes : List (String × String)) (line : Nat) :
    Element.markup ⟨name, attributes, line, true, []⟩ =
      "<" ++ name ++ String.join (attributes.map attributeMarkup) ++ "/>" := by
  simp [Element.markup]

open Markup

theorem Element.toList_join_attributeMarkup (attributes : List (String × String)) :
    (String.join (attributes.map attributeMarkup)).toList = attributesChars attributes := by
  have hattribute (p : String × String) : (attributeMarkup p).toList = attributeChars p := by
    simp [attributeMarkup, attributeChars]
  simp [String.toList_join, List.flatMap_map, hattribute, attributesChars]

/-- An element that is written as a single tag is read back, on the first line. -/
theorem Document.read_single {name : String} {attributes : List (String × String)}
    (hname : IsPlainName name.toList) (hattributes : ∀ p ∈ attributes, IsWritable p)
    (hnodup : (attributes.map Prod.fst).Nodup) :
    Document.read (Element.markup ⟨name, attributes, 1, true, []⟩) =
      .ok ⟨⟨name, attributes, 1, true, []⟩, []⟩ := by
  have hchars : (Element.markup ⟨name, attributes, 1, true, []⟩).toList =
      '<' :: (name.toList ++ attributesChars attributes ++ ['/', '>']) := by
    simp only [Element.markup_single, String.toList_append, Element.toList_join_attributeMarkup]
    simp
  have hbuilt : Builder.step 1 (.opening (name.toList ++ attributesChars attributes) true)
      ⟨[], none, []⟩ = .ok ⟨[], some ⟨name, attributes, 1, true, []⟩, []⟩ := by
    simp [Builder.step, Attribute.readAll_single hname hattributes hnodup,
      Attribute.tagName_single hname, Builder.close]
  unfold Document.read
  simp only [hchars, withoutMark, Char.reduceEq, if_false]
  rw [readFrom_of_next (Event.next_single hname hattributes)
    (by rw [Nat.sub_self, lineAfter_zero, hbuilt])]
  rw [readFrom]
  rfl

end XmlTemplate
