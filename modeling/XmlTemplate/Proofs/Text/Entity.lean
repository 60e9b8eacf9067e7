import XmlTemplate.Text.Entity

/-!
# Escaped text

A text that was escaped for HTML holds no character that ends a tag or a value, and its references
stand for the characters that were replaced by them. Escaping a text character by character comes to
the same as replacing the five characters in the whole text one after the other, if the ampersand
comes first.
-/

namespace XmlTemplate.Text

theorem entityName?_append {name : List Char} (h : ∀ c ∈ name, c ≠ ';' ∧ c ≠ '&')
    (rest : List Char) : entityName? (name ++ ';' :: rest) = some (name, rest) := by
  induction name with
  | nil => rfl
  | cons c name ih =>
    obtain ⟨hsemicolon, hampersand⟩ := h c (List.mem_cons_self ..)
    have hname := ih fun d hd => h d (List.mem_cons_of_mem _ hd)
    rw [List.cons_append, entityName?, if_neg hsemicolon, if_neg hampersand, hname]
    rfl

/-- A reference is read as the character that it stands for. -/
theorem unescape?_reference {name : List Char} {d : Char} (h : ∀ c ∈ name, c ≠ ';' ∧ c ≠ '&')
    (hd : entity? name = some d) (rest : List Char) :
    unescape? ('&' :: name ++ ';' :: rest) = (unescape? rest).map (d :: ·) := by
  rw [List.cons_append, unescape?, if_pos rfl]
  split
  · rename_i hnone
    rw [entityName?_append h] at hnone
    cases hnone
  · rename_i found after hsome
    rw [entityName?_append h] at hsome
    cases hsome
    rw [hd]

theorem unescape?_cons {c : Char} (h : c ≠ '&') (rest : List Char) :
    unescape? (c :: rest) = (unescape? rest).map (c :: ·) := by
  rw [unescape?, if_neg h]

/-- A character is written as itself, or as a reference that stands for it. -/
theorem htmlEntity_cases (c : Char) :
    (htmlEntity c = [c] ∧ c ≠ '&' ∧ c ≠ '"') ∨
      ∃ name, htmlEntity c = '&' :: name ++ [';'] ∧ entity? name = some c ∧
        ∀ d ∈ name, d ≠ ';' ∧ d ≠ '&' ∧ d ≠ '"' := by
  by_cases hspecial : c = '&' ∨ c = '<' ∨ c = '>' ∨ c = '"' ∨ c = '\''
  · right
    rcases hspecial with rfl | rfl | rfl | rfl | rfl
    · exact ⟨"amp".toList, rfl, rfl, by simp⟩
    · exact ⟨"lt".toList, rfl, rfl, by simp⟩
    · exact ⟨"gt".toList, rfl, rfl, by simp⟩
    · exact ⟨"quot".toList, rfl, rfl, by simp⟩
    · exact ⟨"#039".toList, rfl, rfl, by simp⟩
  · simp only [not_or] at hspecial
    obtain ⟨hampersand, hless, hgreater, hquote, hapostrophe⟩ := hspecial
    left
    simp [htmlEntity, hampersand, hless, hgreater, hquote, hapostrophe]

/-- What a character is written as is read back as the character. -/
theorem unescape?_htmlEntity (c : Char) (rest : List Char) :
    unescape? (htmlEntity c ++ rest) = (unescape? rest).map (c :: ·) := by
  rcases htmlEntity_cases c with ⟨hself, hampersand, -⟩ | ⟨name, hname, hentity, hplain⟩
  · rw [hself]
    exact unescape?_cons hampersand rest
  · rw [hname, List.append_assoc]
    exact unescape?_reference (fun d hd => ⟨(hplain d hd).1, (hplain d hd).2.1⟩) hentity rest

theorem unescape?_flatMap (text : List Char) : unescape? (text.flatMap htmlEntity) = some text := by
  induction text with
  | nil => simp [unescape?]
  | cons c text ih => rw [List.flatMap_cons, unescape?_htmlEntity, ih, Option.map_some]

/-- Nothing is lost when a text is escaped. -/
theorem unescape_escapeHtml (s : String) : unescape (escapeHtml s) = s := by
  simp only [unescape, escapeHtml, String.toList_ofList, unescape?_flatMap, String.ofList_toList]

/-- An escaped text may stand between double quotes. -/
theorem quote_notMem_escapeHtml (s : String) : '"' ∉ (escapeHtml s).toList := by
  rw [escapeHtml, String.toList_ofList, List.mem_flatMap]
  rintro ⟨c, -, hc⟩
  rcases htmlEntity_cases c with ⟨hself, -, hquote⟩ | ⟨name, hname, -, hplain⟩
  · rw [hself, List.mem_singleton] at hc
    exact hquote hc.symm
  · rw [hname] at hc
    simp only [List.cons_append, List.mem_cons, List.mem_append, List.not_mem_nil, or_false] at hc
    rcases hc with hc | hc | hc
    · cases hc
    · exact (hplain _ hc).2.2 rfl
    · cases hc

/-- Characters that end a tag or a value are written as references. -/
theorem notMem_escapeHtml {d : Char} (hd : d ∈ ['<', '>', '"', '\'']) (s : String) :
    d ∉ (escapeHtml s).toList := by
  rw [escapeHtml, String.toList_ofList, List.mem_flatMap]
  rintro ⟨c, -, hc⟩
  by_cases hspecial : c ∈ ['&', '<', '>', '"', '\'']
  · have hnone : ['&', '<', '>', '"', '\''].all fun c =>
        ['<', '>', '"', '\''].all fun d => !(htmlEntity c).contains d := rfl
    have hd := List.all_eq_true.1 (List.all_eq_true.1 hnone c hspecial) d hd
    simp [hc] at hd
  · simp only [List.mem_cons, List.not_mem_nil, or_false, not_or] at hspecial
    have hself : htmlEntity c = [c] := by simp [htmlEntity, hspecial]
    rw [hself, List.mem_singleton] at hc
    subst hc
    simp [hspecial] at hd

/-! ## One replacement after the other -/

/-- Replace every occurrence of a character in a text. -/
def replaceChar (old : Char) (new text : List Char) : List Char :=
  text.flatMap fun c => if c = old then new else [c]

/-- Replace the five characters in the whole text, one after the other. -/
def escapeInTurn (text : List Char) : List Char :=
  let withAmp := replaceChar '&' "&amp;".toList text
  let withLess := replaceChar '<' "&lt;".toList withAmp
  let withGreater := replaceChar '>' "&gt;".toList withLess
  let withQuote := replaceChar '"' "&quot;".toList withGreater
  replaceChar '\'' "&#039;".toList withQuote

theorem replaceChar_append (old : Char) (new s t : List Char) :
    replaceChar old new (s ++ t) = replaceChar old new s ++ replaceChar old new t :=
  List.flatMap_append

theorem replaceChar_singleton {c old : Char} (h : c ≠ old) (new : List Char) :
    replaceChar old new [c] = [c] := by
  simp [replaceChar, h]

theorem escapeInTurn_append (s t : List Char) :
    escapeInTurn (s ++ t) = escapeInTurn s ++ escapeInTurn t := by
  simp only [escapeInTurn, replaceChar_append]

/-- No later replacement touches what an earlier one has put in for a character. -/
theorem escapeInTurn_singleton (c : Char) : escapeInTurn [c] = htmlEntity c := by
  by_cases hspecial : c = '&' ∨ c = '<' ∨ c = '>' ∨ c = '"' ∨ c = '\''
  · rcases hspecial with rfl | rfl | rfl | rfl | rfl <;> rfl
  · simp only [not_or] at hspecial
    obtain ⟨hampersand, hless, hgreater, hquote, hapostrophe⟩ := hspecial
    rw [escapeInTurn, replaceChar_singleton hampersand, replaceChar_singleton hless,
      replaceChar_singleton hgreater, replaceChar_singleton hquote,
      replaceChar_singleton hapostrophe, htmlEntity, if_neg hampersand, if_neg hless,
      if_neg hgreater, if_neg hquote, if_neg hapostrophe]

theorem escapeInTurn_eq (text : List Char) : escapeInTurn text = text.flatMap htmlEntity := by
  induction text with
  | nil => rfl
  | cons c text ih =>
    rw [← List.singleton_append, escapeInTurn_append, escapeInTurn_singleton, ih]
    rfl

theorem escapeHtml_eq_inTurn (s : String) :
    escapeHtml s = String.ofList (escapeInTurn s.toList) := by
  rw [escapeInTurn_eq, escapeHtml]

theorem escapeHtml_append (s t : String) : escapeHtml (s ++ t) = escapeHtml s ++ escapeHtml t := by
  simp [escapeHtml]

/-! ## References -/

/-- What the five characters are written as. -/
def entities : List (List Char) :=
  ["&amp;".toList, "&lt;".toList, "&gt;".toList, "&quot;".toList, "&#039;".toList]

theorem htmlEntity_mem_or (c : Char) : htmlEntity c ∈ entities ∨ htmlEntity c = [c] ∧ c ≠ '&' := by
  by_cases hspecial : c = '&' ∨ c = '<' ∨ c = '>' ∨ c = '"' ∨ c = '\''
  · left
    rcases hspecial with rfl | rfl | rfl | rfl | rfl <;> decide
  · simp only [not_or] at hspecial
    right
    simp [htmlEntity, hspecial]

/-- An ampersand in an entity is its first character. -/
theorem eq_nil_of_mem_entities {entity before behind : List Char} (h : entity ∈ entities)
    (heq : entity = before ++ '&' :: behind) : before = [] := by
  cases before with
  | nil => rfl
  | cons c before =>
    have htails : entities.all fun entity => !entity.tail.contains '&' := by decide
    have htail := List.all_eq_true.1 htails entity h
    simp [heq] at htail

/-- In an escaped text, every ampersand starts one of the entities. -/
theorem exists_entity_of_ampersand {text before behind : List Char}
    (h : text.flatMap htmlEntity = before ++ '&' :: behind) :
    ∃ entity ∈ entities, entity <+: '&' :: behind := by
  induction text generalizing before with
  | nil => simp at h
  | cons c text ih =>
    rw [List.flatMap_cons] at h
    rcases List.append_eq_append_iff.1 h with ⟨more, -, hbehind⟩ | ⟨more, hentity, hbehind⟩
    · exact ih hbehind
    · cases more with
      | nil =>
        rw [List.nil_append] at hbehind
        exact ih (hbehind.symm.trans (List.nil_append _).symm)
      | cons d more =>
        obtain ⟨rfl, rfl⟩ := List.cons.inj hbehind
        rcases htmlEntity_mem_or c with hmem | ⟨hself, hampersand⟩
        · cases eq_nil_of_mem_entities hmem hentity
          refine ⟨_, hmem, ?_⟩
          rw [hentity]
          exact List.prefix_append ('&' :: more) _
        · have hc : '&' ∈ htmlEntity c := by simp [hentity]
          rw [hself, List.mem_singleton] at hc
          exact absurd hc.symm hampersand

theorem exists_entity_of_escapeHtml {s : String} {before behind : List Char}
    (h : (escapeHtml s).toList = before ++ '&' :: behind) :
    ∃ entity ∈ entities, entity <+: '&' :: behind := by
  rw [escapeHtml, String.toList_ofList] at h
  exact exists_entity_of_ampersand h

/-! ## Several texts -/

/-- A name that ends within a text ends there in a longer one. -/
theorem entityName?_append_of_some {text name after : List Char}
    (h : entityName? text = some (name, after)) (behind : List Char) :
    entityName? (text ++ behind) = some (name, after ++ behind) := by
  induction text generalizing name with
  | nil => cases h
  | cons c text ih =>
    rw [entityName?] at h
    rw [List.cons_append, entityName?]
    split at h
    · cases h
      rename_i hc
      rw [if_pos hc]
    · rename_i hc
      split at h
      · cases h
      · rename_i hampersand
        obtain ⟨n, hn, rfl⟩ := consFirst_eq_some_iff.1 h
        rw [if_neg hc, if_neg hampersand, ih hn]
        rfl

/-- If all references of a text are valid, they are replaced whatever stands behind the text. -/
theorem unescape?_append {text plain : List Char} (h : unescape? text = some plain)
    (behind : List Char) :
    unescape? (text ++ behind) = (unescape? behind).map (plain ++ ·) := by
  fun_induction unescape? text generalizing plain with
  | case1 =>
    cases h
    simp
  | case2 => cases h
  | case3 => cases h
  | case4 rest name after hname d hd ih =>
    obtain ⟨text, htext, rfl⟩ := Option.map_eq_some_iff.1 h
    have hlonger := entityName?_append_of_some hname behind
    rw [List.cons_append, unescape?, if_pos rfl]
    split
    · rename_i hnone
      cases hlonger.symm.trans hnone
    · rename_i found rest' hfound
      cases hlonger.symm.trans hfound
      simp only [hd, ih htext, Option.map_map]
      rfl
  | case5 c rest hc ih =>
    obtain ⟨text, htext, rfl⟩ := Option.map_eq_some_iff.1 h
    rw [List.cons_append, unescape?_cons hc, ih htext, Option.map_map]
    rfl

end XmlTemplate.Text
