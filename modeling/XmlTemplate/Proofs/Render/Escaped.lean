import XmlTemplate.Proofs.Markup.Single
import XmlTemplate.Proofs.Render.Interpolation

/-!
# Data in attributes

What is escaped is read back. A value into which data was put by runs, written as an attribute of an
opening tag, is read as it was written, and replacing the references in it gives the data again,
between the texts that stood between the runs.
-/

namespace XmlTemplate

namespace Text

/-- The text with its references replaced, or the text itself if one of them is invalid. -/
def decoded (text : List Char) : List Char := (unescape? text).getD text

theorem unescape_ofList (text : List Char) :
    unescape (String.ofList text) = String.ofList (decoded text) := by
  rw [unescape, String.toList_ofList, decoded]
  cases unescape? text <;> rfl

end Text

/-! ## Values -/

namespace Run

/-- All references outside of the runs are valid. -/
def AreDecodable (runs : List Run) (last : List Char) : Prop :=
  (∀ r ∈ runs, (Text.unescape? r.before).isSome) ∧ (Text.unescape? last).isSome

instance (runs : List Run) (last : List Char) : Decidable (AreDecodable runs last) :=
  inferInstanceAs (Decidable (_ ∧ _))

/-- The run with the references in front of it replaced. -/
def decoded (r : Run) : Run := { r with before := Text.decoded r.before }

variable {runs : List Run} {last : List Char}

/-- Replacing the references gives back the texts that were put in, whatever they hold. -/
theorem unescape?_fill (h : AreDecodable runs last) {texts : List String}
    (hlength : texts.length = runs.length) :
    Text.unescape? (fill runs (texts.map Render.escaped) last) =
      some (fill (runs.map decoded) (texts.map String.toList) (Text.decoded last)) := by
  induction runs generalizing texts with
  | nil =>
    obtain ⟨plain, hplain⟩ := Option.isSome_iff_exists.1 h.2
    cases List.eq_nil_of_length_eq_zero hlength
    simp [fill, Text.decoded, hplain]
  | cons r runs ih =>
    obtain ⟨text, texts, rfl⟩ := List.exists_cons_of_length_eq_add_one hlength
    obtain ⟨hbefore, hruns⟩ := List.forall_mem_cons.1 h.1
    obtain ⟨before, hbefore⟩ := Option.isSome_iff_exists.1 hbefore
    have htext : Text.unescape? (Render.escaped text) = some text.toList := by
      rw [Render.escaped, Text.escapeHtml, String.toList_ofList, Text.unescape?_flatMap]
    have hrest := ih ⟨hruns, h.2⟩ (Nat.succ.inj hlength)
    have hdecoded : (decoded r).before = before := by simp [decoded, Text.decoded, hbefore]
    simp only [List.map_cons, fill_cons, List.append_assoc, Text.unescape?_append hbefore,
      Text.unescape?_append htext, hrest, Option.map_some, hdecoded]

end Run

/-! ## Opening tags -/

namespace Markup

/-- A reader finds an opening tag at the start of the text, with this name and these attributes. -/
def StartsTag (text : List Char) (name : String) (attributes : List (String × String))
    (rest : List Char) : Prop :=
  ∃ chars body single, text = '<' :: chars ∧
    Event.next '<' chars = .ok (.opening body single, rest) ∧
    String.ofList (tagName body) = name ∧ Attribute.readAll body = .ok attributes

/-- An opening tag is read as it is written by a render, single or not. -/
theorem startsTag_opening {name : String} {attributes : List (String × String)}
    (hname : IsPlainName name.toList) (hattributes : ∀ p ∈ attributes, IsWritable p)
    (hnodup : (attributes.map Prod.fst).Nodup) {ending : String} (hending : ending ∈ [">", " />"])
    (rest : List Char) :
    StartsTag ((Render.opening name attributes ++ ending).toList ++ rest) name attributes rest := by
  have hchars (ending : List Char) : (Render.opening name attributes).toList ++ ending =
      '<' :: (name.toList ++ attributesChars attributes ++ ending) := by
    have hopening : Render.opening name attributes =
        "<" ++ name ++ String.join (attributes.map Element.attributeMarkup) := rfl
    simp only [hopening, String.toList_append, Element.toList_join_attributeMarkup]
    simp
  have hread (blanks : List Char) (hblanks : ∀ c ∈ blanks, isBlank c = true) :
      String.ofList (tagName (name.toList ++ attributesChars attributes ++ blanks)) = name ∧
        Attribute.readAll (name.toList ++ attributesChars attributes ++ blanks) =
          .ok attributes := by
    rw [(Attribute.name_append hname.2 blanks hblanks attributes).1, String.ofList_toList]
    exact ⟨rfl, Attribute.readAll_tag hname blanks hblanks hattributes hnodup⟩
  simp only [List.mem_cons, List.not_mem_nil, or_false] at hending
  rw [String.toList_append, List.append_assoc, hchars]
  rcases hending with rfl | rfl
  · have hend : Event.tagBody none ('>' :: rest) = .ok ([], rest) := rfl
    have hnext := Event.next_tag hname hattributes hend
    rw [List.append_nil, Event.openingOf_plain hname] at hnext
    have hnone := hread [] nofun
    rw [List.append_nil] at hnone
    exact ⟨_, _, _, rfl, hnext, hnone⟩
  · have hend : Event.tagBody none (' ' :: '/' :: '>' :: rest) = .ok ([' '] ++ ['/'], rest) := rfl
    have hnext := Event.next_tag hname hattributes hend
    rw [← List.append_assoc, Event.openingOf_concat] at hnext
    exact ⟨_, _, _, rfl, hnext, hread [' '] (by simp [isBlank])⟩

end Markup

/-! ## Interpolated values -/

namespace Render

open Markup

variable {e : Engine} {place : Place}

theorem length_of_runTexts {runs : List Run} {texts : List String} {s s' : Session} {m m' : Memory}
    (h : runTexts e place runs s m = (.ok (texts, s'), m')) : texts.length = runs.length := by
  induction runs generalizing texts s m with
  | nil =>
    cases h
    rfl
  | cons r runs ih =>
    rw [runTexts, List.mapM_cons] at h
    obtain ⟨text, s₁, m₁, -, h⟩ := bind_eq_ok_iff.1 h
    obtain ⟨others, s₂, m₂, hothers, h⟩ := bind_eq_ok_iff.1 h
    cases h
    exact congrArg Nat.succ (ih hothers)

section

variable {raw value : String} {runs : List Run} {last : List Char} {s s' : Session} {m m' : Memory}

/-- What an interpolated value is made of. -/
theorem exists_texts_of_interpolate (hfinds : Run.Finds '\x7b' raw.toList runs last)
    (h : interpolate e place raw s m = (.ok (value, s'), m')) :
    ∃ texts, runTexts e place runs s m = (.ok (texts, s'), m') ∧ texts.length = runs.length ∧
      value = String.ofList (Run.fill runs (texts.map escaped) last) := by
  rw [interpolate_eq hfinds] at h
  obtain ⟨texts, s₁, m₁, htexts, h⟩ := bind_eq_ok_iff.1 h
  cases h
  exact ⟨texts, htexts, length_of_runTexts htexts, rfl⟩

/-- A value without a double quote is read among other attributes as it is written. -/
theorem startsTag_of_quotable {name key : String} {before after : List (String × String)}
    (hvalue : '"' ∉ value.toList) (hname : IsPlainName name.toList) (hkey : IsPlainName key.toList)
    (hothers : ∀ p ∈ before ++ after, IsWritable p)
    (hnodup : ((before ++ (key, value) :: after).map Prod.fst).Nodup) {ending : String}
    (hending : ending ∈ [">", " />"]) (rest : List Char) :
    StartsTag ((opening name (before ++ (key, value) :: after) ++ ending).toList ++ rest)
      name (before ++ (key, value) :: after) rest := by
  refine startsTag_opening hname (fun p hp => ?_) hnodup hending rest
  rcases List.mem_append.1 hp with hp | hp
  · exact hothers p (List.mem_append_left _ hp)
  · rcases List.mem_cons.1 hp with rfl | hp
    · exact ⟨hkey, hvalue⟩
    · exact hothers p (List.mem_append_right _ hp)

end

/-- Escaping loses nothing and lets nothing out. It may be done piece by piece, and it is the five
replacements one after the other. No character that ends a tag or a value is left, an ampersand is
left only where an entity starts, and the references stand for the text that was escaped. So data is
read back from an attribute: the opening tag in which an interpolated value is written is read with
that value, and with the references in it replaced the value holds the texts of the data in place of
the runs, as they are. -/
theorem escapeHtml_reads_back :
    (∀ s t : String, Text.escapeHtml (s ++ t) = Text.escapeHtml s ++ Text.escapeHtml t) ∧
    (∀ s : String, Text.escapeHtml s = String.ofList (Text.escapeInTurn s.toList) ∧
      (∀ c ∈ ['<', '>', '"', '\''], c ∉ (Text.escapeHtml s).toList) ∧
      (∀ before behind, (Text.escapeHtml s).toList = before ++ '&' :: behind →
        ∃ entity ∈ Text.entities, entity <+: '&' :: behind) ∧
      Text.unescape (Text.escapeHtml s) = s) ∧
    ∀ (e : Engine) (place : Place) (raw value : String) (runs : List Run) (last : List Char)
      (s s' : Session) (m m' : Memory), Run.Finds '\x7b' raw.toList runs last →
      interpolate e place raw s m = (.ok (value, s'), m') →
      ∃ texts, runTexts e place runs s m = (.ok (texts, s'), m') ∧
        (Run.AreDecodable runs last → Text.unescape value =
          String.ofList (Run.fill (runs.map Run.decoded) (texts.map String.toList)
            (Text.decoded last))) ∧
        ('"' ∉ raw.toList → ∀ (name key : String) (before after : List (String × String))
          (ending : String) (rest : List Char), IsPlainName name.toList → IsPlainName key.toList →
          (∀ p ∈ before ++ after, IsWritable p) →
          ((before ++ (key, value) :: after).map Prod.fst).Nodup → ending ∈ [">", " />"] →
          StartsTag ((opening name (before ++ (key, value) :: after) ++ ending).toList ++ rest)
            name (before ++ (key, value) :: after) rest) := by
  refine ⟨Text.escapeHtml_append, fun s => ⟨Text.escapeHtml_eq_inTurn s, ?_, ?_, ?_⟩, ?_⟩
  · exact fun c hc => Text.notMem_escapeHtml hc s
  · exact fun before behind h => Text.exists_entity_of_escapeHtml h
  · exact Text.unescape_escapeHtml s
  · intro e place raw value runs last s s' m m' hfinds hvalue
    obtain ⟨texts, htexts, hlength, rfl⟩ := exists_texts_of_interpolate hfinds hvalue
    refine ⟨texts, htexts, fun hdecodable => ?_, fun hraw name key before after ending rest => ?_⟩
    · rw [Text.unescape_ofList, Text.decoded, Run.unescape?_fill hdecodable hlength,
        Option.getD_some]
    · intro hname hkey hothers hnodup hending
      have hquoted := notMem_fill_escaped hfinds texts (c := '"') (by simp) hraw
      rw [← String.toList_ofList (l := Run.fill runs (texts.map escaped) last)] at hquoted
      exact startsTag_of_quotable hquoted hname hkey hothers hnodup hending rest

/-- A value with a reference in front of its run. -/
def datumRuns : List Run := [⟨"a &amp; ".toList, "/t".toList⟩]

/-- The start of a render on a text with all characters that are escaped. -/
def datumSession : Session := .start (.object [("t", .string "<\"'&'\">")]) none

theorem escapeHtml_reads_back_datum :
    ∃ value s m, interpolate .default ⟨0, 1⟩ (String.ofList (Run.join datumRuns ['.']))
        datumSession (.ofFiles ⟨[]⟩) = (.ok (value, s), m) ∧
      Text.unescape value = "a & <\"'&'\">." ∧
      StartsTag ((opening "a" [("title", value)] ++ " />").toList ++ ['x']) "a" [("title", value)]
        ['x'] := by
  have hplain : Run.ArePlain datumRuns ['.'] := by
    unfold Run.ArePlain
    decide
  have hfinds :
      Run.Finds '\x7b' (String.ofList (Run.join datumRuns ['.'])).toList datumRuns ['.'] := by
    rw [String.toList_ofList]
    exact Run.finds_widened hplain
  have hdecodable : Run.AreDecodable datumRuns ['.'] := by decide +kernel
  have htest : (interpolate .default ⟨0, 1⟩ (String.ofList (Run.join datumRuns ['.']))
        datumSession (.ofFiles ⟨[]⟩)).1.isOk ∧
      (runTexts .default ⟨0, 1⟩ datumRuns datumSession
        (.ofFiles ⟨[]⟩)).1.toOption.any fun result => result.1 == ["<\"'&'\">"] := by
    decide +kernel
  obtain ⟨hok, htexts⟩ := htest
  generalize hrun : interpolate .default ⟨0, 1⟩ (String.ofList (Run.join datumRuns ['.']))
    datumSession (.ofFiles ⟨[]⟩) = outcome at hok
  obtain ⟨_ | ⟨value, s⟩, m⟩ := outcome
  · cases hok
  obtain ⟨texts, hresult, hdecoded, hread⟩ :=
    escapeHtml_reads_back.2.2 _ _ _ _ _ _ _ _ _ _ hfinds hrun
  rw [hresult] at htexts
  cases eq_of_beq htexts
  refine ⟨value, s, m, rfl, ?_, ?_⟩
  · rw [hdecoded hdecodable]
    decide +kernel
  · exact hread (by decide) "a" "title" [] [] " />" ['x'] (by decide) (by decide) nofun (by simp)
      (by simp)

end Render

end XmlTemplate
