import XmlTemplate.Markup.Doctype
import XmlTemplate.Markup.Problem

/-!
# Markup events

A document is a sequence of events: text, references, tags and what is neither. `Event.next`
takes the event that a text starts with; every event takes at least one character.
-/

namespace XmlTemplate.Markup

/-- A unit of markup. -/
inductive Event where
  | text (run : List Char)
  /-- The name between an ampersand and a semicolon. -/
  | reference (name : List Char)
  | cdata (text : List Char)
  /-- A processing instruction without its marks. -/
  | instruction (content : List Char)
  /-- An opening tag without its marks. -/
  | opening (body : List Char) (selfClosing : Bool)
  /-- The name of a closing tag. -/
  | closing (name : List Char)
  /-- A comment, a document type or the XML declaration. -/
  | ignored
  deriving Repr, DecidableEq

/-- Blanks within markup. -/
def isBlank (c : Char) : Bool := c == ' ' || c == '\t' || c == '\n' || c == '\r'

namespace Event

/-- The content of a tag up to the first `>` outside of quotes, and the rest. -/
def tagBody (quote : Option Char) : List Char → Except Problem (List Char × List Char)
  | [] => .error (.unclosed (quote.elim .tag .value))
  | c :: rest =>
    if c = '>' ∧ quote = none then .ok ([], rest)
    else
      let next := match quote with
        | some q => if c = q then none else quote
        | none => if isQuote c then some c else none
      match tagBody next rest with
      | .error problem => .error problem
      | .ok (body, after) => .ok (c :: body, after)

/-- Cut at a closing mark, or complain about the construct that it closes. -/
def cutAt (mark : List Char) (construct : Construct) (text : List Char) :
    Except Problem (List Char × List Char) :=
  match Text.cut? mark text with
  | some found => .ok found
  | none => .error (.unclosed construct)

-- ---------------------------------------------------------------------------
-- Document types
-- ---------------------------------------------------------------------------

/-- The text starts with a word, in letters of any case. -/
def startsWithWord (word text : List Char) : Bool :=
  word.length ≤ text.length && (text.take word.length).map Char.toUpper == word

/-- A document type, after its `<!`. -/
def doctype (text : List Char) : Except Problem (Event × List Char) :=
  match DoctypePlace.body? (.head none) text with
  | none => .error (.unclosed .doctype)
  | some (body, rest) =>
    if startsWithWord "DOCTYPE".toList body then
      if (body.drop 7).all isBlank then .error .missingDoctypeName else .ok (.ignored, rest)
    else .error (.unclosed .doctype)

-- ---------------------------------------------------------------------------
-- Events
-- ---------------------------------------------------------------------------

/-- The text is `xml`, or `xml` and a blank after it. -/
def isDeclaration (content : List Char) : Bool :=
  match Text.after? "xml".toList content with
  | some [] => true
  | some (c :: _) => isBlank c
  | none => false

/-- What a text after `<?` starts that never ends: after `xml`, a question mark may belong to the
end of a declaration. -/
def unclosedInstruction (text : List Char) : Construct :=
  if isDeclaration text || (Text.after? "xml?".toList text).isSome then .declaration
  else .instruction

/-- What follows `<!`. -/
def special (text : List Char) : Except Problem (Event × List Char) :=
  match text with
  | '[' :: _ =>
    match Text.after? "[CDATA[".toList text with
    | none => .error (.unclosed .cdata)
    | some rest =>
      match cutAt "]]>".toList .cdata rest with
      | .error problem => .error problem
      | .ok (content, rest) => .ok (.cdata content, rest)
  | '-' :: rest =>
    match rest with
    | '-' :: rest =>
      match cutAt "-->".toList .comment rest with
      | .error problem => .error problem
      | .ok (_, rest) => .ok (.ignored, rest)
    | _ => .error (.unclosed .comment)
  | c :: _ => if c = 'D' ∨ c = 'd' then doctype text else .error .unknownMark
  | [] => .error .unknownMark

/-- What follows `<?`. -/
def instructionOf (text : List Char) : Except Problem (Event × List Char) :=
  match text with
  | '>' :: _ => .error (.unclosed .instruction)
  | _ =>
    match Text.cut? "?>".toList text with
    | some (content, rest) =>
      .ok (if isDeclaration content then .ignored else .instruction content, rest)
    | none => .error (.unclosed (unclosedInstruction text))

/-- The name in a closing tag: blanks at its end do not count, unless there is nothing else. -/
def closingName (content : List Char) : List Char :=
  match Text.dropWhileEnd isBlank content with
  | [] => content
  | name => name

/-- An opening tag. A slash at its end makes it a single tag. -/
def openingOf (body : List Char) : Event :=
  if body.getLast? = some '/' then .opening body.dropLast true else .opening body false

/-- What follows `<`. -/
def tag (text : List Char) : Except Problem (Event × List Char) :=
  match text with
  | '!' :: rest => special rest
  | '?' :: rest => instructionOf rest
  | '/' :: rest =>
    match tagBody none rest with
    | .error problem => .error problem
    | .ok (content, rest) => .ok (.closing (closingName content), rest)
  | _ =>
    match tagBody none text with
    | .error problem => .error problem
    | .ok (body, rest) => .ok (openingOf body, rest)

/-- The text between an ampersand and a semicolon, and the rest; no reference if another ampersand
or a tag comes first. -/
def reference? : List Char → Option (List Char × List Char)
  | [] => none
  | c :: more =>
    if c = ';' then some ([], more)
    else if c = '&' ∨ c = '<' then none
    else Text.consFirst c (reference? more)

/-- Characters that end a run of text. -/
def endsRun (c : Char) : Bool := c == '<' || c == '&'

/-- The event that the text `c :: rest` starts with, and what follows it. -/
def next (c : Char) (rest : List Char) : Except Problem (Event × List Char) :=
  if c = '<' then tag rest
  else if c = '&' then
    match reference? rest with
    | some (name, after) => .ok (.reference name, after)
    | none => .error .unclosedReference
  else .ok (.text (c :: rest.takeWhile (!endsRun ·)), rest.dropWhile (!endsRun ·))

-- ---------------------------------------------------------------------------
-- Lengths
-- ---------------------------------------------------------------------------

theorem length_of_tagBody {quote : Option Char} {text body rest : List Char}
    (h : tagBody quote text = .ok (body, rest)) : rest.length ≤ text.length := by
  induction text generalizing quote body with
  | nil => cases h
  | cons c text ih =>
    simp only [tagBody] at h
    split at h
    · cases h
      simp
    · split at h
      · cases h
      · rename_i hb
        cases h
        have := ih hb
        simp only [List.length_cons]
        omega

theorem length_of_cutAt {mark text before rest : List Char} {construct : Construct}
    (h : cutAt mark construct text = .ok (before, rest)) : rest.length ≤ text.length := by
  unfold cutAt at h
  split at h
  · rename_i hc
    cases h
    rw [Text.eq_append_of_cut? hc]
    simp only [List.length_append]
    omega
  · cases h

theorem length_of_doctype {text rest : List Char} {e : Event}
    (h : doctype text = .ok (e, rest)) : rest.length ≤ text.length := by
  unfold doctype at h
  split at h
  · cases h
  · rename_i hd
    split at h
    · split at h
      · cases h
      · cases h
        exact DoctypePlace.length_of_body? hd
    · cases h

theorem length_of_special {text rest : List Char} {e : Event}
    (h : special text = .ok (e, rest)) : rest.length ≤ text.length := by
  unfold special at h
  split at h
  · split at h
    · cases h
    · rename_i ha
      split at h
      · cases h
      · rename_i hb
        cases h
        have := length_of_cutAt hb
        rw [Text.after?_eq_some_iff.1 ha]
        simp only [List.length_append]
        omega
  · split at h
    · split at h
      · cases h
      · rename_i hb
        cases h
        have := length_of_cutAt hb
        simp only [List.length_cons]
        omega
    · cases h
  · split at h
    · exact length_of_doctype h
    · cases h
  · cases h

theorem length_of_instructionOf {text rest : List Char} {e : Event}
    (h : instructionOf text = .ok (e, rest)) : rest.length ≤ text.length := by
  unfold instructionOf at h
  split at h
  · cases h
  · split at h
    · rename_i hc
      cases h
      rw [Text.eq_append_of_cut? hc]
      simp only [List.length_append]
      omega
    · cases h

theorem length_of_tag {text rest : List Char} {e : Event}
    (h : tag text = .ok (e, rest)) : rest.length ≤ text.length := by
  unfold tag at h
  split at h
  · have := length_of_special h
    simp only [List.length_cons]
    omega
  · have := length_of_instructionOf h
    simp only [List.length_cons]
    omega
  · split at h
    · cases h
    · rename_i hb
      cases h
      have := length_of_tagBody hb
      simp only [List.length_cons]
      omega
  · split at h
    · cases h
    · rename_i hb
      cases h
      exact length_of_tagBody hb

theorem length_of_reference? {text name rest : List Char}
    (h : reference? text = some (name, rest)) : rest.length ≤ text.length := by
  induction text generalizing name with
  | nil => cases h
  | cons c text ih =>
    rw [reference?] at h
    split at h
    · cases h
      simp
    · split at h
      · cases h
      · obtain ⟨b, hb, -⟩ := Text.consFirst_eq_some_iff.1 h
        have := ih hb
        simp only [List.length_cons]
        omega

/-- Every event takes at least one character. -/
theorem length_of_next {c : Char} {text rest : List Char} {e : Event}
    (h : next c text = .ok (e, rest)) : rest.length ≤ text.length := by
  unfold next at h
  split at h
  · exact length_of_tag h
  · split at h
    · split at h
      · rename_i hr
        cases h
        exact length_of_reference? hr
      · cases h
    · cases h
      exact (List.dropWhile_suffix _).length_le

end Event

end XmlTemplate.Markup
