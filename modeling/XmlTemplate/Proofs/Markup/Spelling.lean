import Mathlib.Data.List.TakeWhile
import XmlTemplate.Markup.Event

/-!
# Spellings of events

An event is taken from the start of a text, where it is spelled in one of a few ways. What follows
it is the rest of the text, so that a text is cut into the spellings of its events.
-/

namespace XmlTemplate.Markup

/-! ## Parts -/

theorem DoctypePlace.eq_append_of_body? {place : DoctypePlace} {text body rest : List Char}
    (h : body? place text = some (body, rest)) : text = body ++ '>' :: rest := by
  induction text generalizing place body with
  | nil => cases h
  | cons c text ih =>
    simp only [body?] at h
    split at h
    · rename_i hend
      cases h
      rw [hend.1, List.nil_append]
    · obtain ⟨b, hb, rfl⟩ := Text.consFirst_eq_some_iff.1 h
      rw [ih hb, List.cons_append]

namespace Event

variable {text rest body : List Char}

theorem eq_append_of_tagBody {quote : Option Char} (h : tagBody quote text = .ok (body, rest)) :
    text = body ++ '>' :: rest := by
  induction text generalizing quote body with
  | nil => cases h
  | cons c text ih =>
    simp only [tagBody] at h
    split at h
    · rename_i hend
      cases h
      rw [hend.1, List.nil_append]
    · split at h
      · cases h
      · rename_i hb
        cases h
        rw [ih hb, List.cons_append]

theorem eq_append_of_cutAt {mark before : List Char} {construct : Construct}
    (h : cutAt mark construct text = .ok (before, rest)) : text = before ++ mark ++ rest := by
  unfold cutAt at h
  split at h
  · rename_i hcut
    cases h
    exact Text.eq_append_of_cut? hcut
  · cases h

/-- The name of a reference holds no character that ends it otherwise. -/
theorem of_reference? {name : List Char} (h : reference? text = some (name, rest)) :
    text = name ++ ';' :: rest ∧ ∀ c ∈ name, c ≠ ';' ∧ c ≠ '&' ∧ c ≠ '<' := by
  induction text generalizing name with
  | nil => cases h
  | cons c text ih =>
    rw [reference?] at h
    split at h
    · rename_i hend
      cases h
      exact ⟨by rw [hend, List.nil_append], List.forall_mem_nil _⟩
    · rename_i hend
      split at h
      · cases h
      · rename_i hother
        obtain ⟨b, hb, rfl⟩ := Text.consFirst_eq_some_iff.1 h
        obtain ⟨htext, hname⟩ := ih hb
        rw [not_or] at hother
        exact ⟨by rw [htext, List.cons_append], List.forall_mem_cons.2 ⟨⟨hend, hother⟩, hname⟩⟩

end Event

/-! ## Events -/

/-- The event may be spelled like this. -/
inductive Event.IsSpelled : Event → List Char → Prop
  | text {run : List Char} (start : run ≠ []) (inside : ∀ c ∈ run, endsRun c = false) :
      IsSpelled (.text run) run
  | reference {name : List Char} (inside : ∀ c ∈ name, c ≠ ';' ∧ c ≠ '&' ∧ c ≠ '<') :
      IsSpelled (.reference name) ('&' :: (name ++ [';']))
  | cdata {content : List Char} :
      IsSpelled (.cdata content) ("<![CDATA[".toList ++ content ++ "]]>".toList)
  | instruction {content : List Char} :
      IsSpelled (.instruction content) ("<?".toList ++ content ++ "?>".toList)
  | opening {body : List Char} : IsSpelled (.opening body false) ('<' :: (body ++ ['>']))
  | single {body : List Char} : IsSpelled (.opening body true) ('<' :: (body ++ ['/', '>']))
  | closing {content : List Char} :
      IsSpelled (.closing (closingName content)) ('<' :: '/' :: (content ++ ['>']))
  | ignored {content : List Char} : IsSpelled .ignored ('<' :: content)

namespace Event

variable {text rest after : List Char} {event : Event}

theorem isSpelled_doctype (h : doctype text = .ok (event, after)) :
    ∃ content, text = content ++ after ∧ event.IsSpelled ('<' :: '!' :: content) := by
  unfold doctype at h
  split at h
  · cases h
  · rename_i body rest hbody
    split at h
    · split at h
      · cases h
      · cases h
        exact ⟨body ++ ['>'], by rw [DoctypePlace.eq_append_of_body? hbody]; simp, .ignored⟩
    · cases h

theorem isSpelled_special (h : special text = .ok (event, after)) :
    ∃ content, text = content ++ after ∧ event.IsSpelled ('<' :: '!' :: content) := by
  unfold special at h
  split at h
  · split at h
    · cases h
    · rename_i rest hrest
      split at h
      · cases h
      · rename_i content rest hcut
        cases h
        refine ⟨"[CDATA[".toList ++ content ++ "]]>".toList, ?_, .cdata⟩
        rw [Text.after?_eq_some_iff.1 hrest, eq_append_of_cutAt hcut]
        simp
  · split at h
    · split at h
      · cases h
      · rename_i comment rest hcut
        cases h
        exact ⟨"--".toList ++ comment ++ "-->".toList, by rw [eq_append_of_cutAt hcut]; simp,
          .ignored⟩
    · cases h
  · split at h
    · exact isSpelled_doctype h
    · cases h
  · cases h

theorem isSpelled_instructionOf (h : instructionOf text = .ok (event, after)) :
    ∃ content, text = content ++ after ∧ event.IsSpelled ('<' :: '?' :: content) := by
  unfold instructionOf at h
  split at h
  · cases h
  · split at h
    · rename_i content rest hcut
      cases h
      refine ⟨content ++ "?>".toList, Text.eq_append_of_cut? hcut, ?_⟩
      split
      · exact .ignored
      · exact .instruction
    · cases h

theorem isSpelled_openingOf (body : List Char) :
    (openingOf body).IsSpelled ('<' :: (body ++ ['>'])) := by
  unfold openingOf
  split
  · rename_i hlast
    obtain ⟨ys, rfl⟩ := List.getLast?_eq_some_iff.1 hlast
    rw [List.dropLast_concat, List.append_assoc]
    exact .single
  · exact .opening

theorem isSpelled_tag (h : tag text = .ok (event, after)) :
    ∃ content, text = content ++ after ∧ event.IsSpelled ('<' :: content) := by
  unfold tag at h
  split at h
  · obtain ⟨content, rfl, hspelled⟩ := isSpelled_special h
    exact ⟨_, rfl, hspelled⟩
  · obtain ⟨content, rfl, hspelled⟩ := isSpelled_instructionOf h
    exact ⟨_, rfl, hspelled⟩
  · split at h
    · cases h
    · rename_i content rest hbody
      cases h
      exact ⟨'/' :: (content ++ ['>']), by rw [eq_append_of_tagBody hbody]; simp, .closing⟩
  · split at h
    · cases h
    · rename_i body rest hbody
      cases h
      exact ⟨body ++ ['>'], by rw [eq_append_of_tagBody hbody]; simp, isSpelled_openingOf body⟩

/-- The text starts with a spelling of its first event, and goes on behind it. -/
theorem isSpelled_of_next {c : Char} (h : next c rest = .ok (event, after)) :
    ∃ piece, c :: rest = piece ++ after ∧ event.IsSpelled piece := by
  unfold next at h
  split at h
  · rename_i hc
    obtain ⟨content, rfl, hspelled⟩ := isSpelled_tag h
    exact ⟨'<' :: content, by rw [hc]; rfl, hspelled⟩
  · rename_i htag
    split at h
    · rename_i hc
      split at h
      · rename_i name rest hreference
        cases h
        obtain ⟨rfl, hname⟩ := of_reference? hreference
        exact ⟨'&' :: (name ++ [';']), by simp [hc], .reference hname⟩
      · cases h
    · rename_i hreference
      cases h
      refine ⟨c :: rest.takeWhile (!endsRun ·), ?_, .text (List.cons_ne_nil _ _) ?_⟩
      · rw [List.cons_append, List.takeWhile_append_dropWhile]
      · refine List.forall_mem_cons.2 ⟨by simp [endsRun, htag, hreference], fun d hd => ?_⟩
        simpa using List.mem_takeWhile_imp hd

end Event

end XmlTemplate.Markup
