import XmlTemplate.Text.Basic

/-!
# Character entities

`escapeHtml` replaces the five characters that have a meaning in markup by entities.
`unescape` reads the five named entities of XML and numeric references; a text with anything
that is not a reference after an ampersand is left as it is.
-/

namespace XmlTemplate.Text

/-- What a character is written as in HTML text and attribute values. -/
def htmlEntity (c : Char) : List Char :=
  if c = '&' then "&amp;".toList
  else if c = '<' then "&lt;".toList
  else if c = '>' then "&gt;".toList
  else if c = '"' then "&quot;".toList
  else if c = '\'' then "&#039;".toList
  else [c]

/-- Escape a text for HTML, character by character. -/
def escapeHtml (s : String) : String :=
  String.ofList (s.toList.flatMap htmlEntity)

/-- The character with a code point that XML allows in a reference: not zero, no surrogate. -/
def referenced? (code : Nat) : Option Char :=
  if code = 0 then none
  else if code < 0xd800 ∨ (0xdfff < code ∧ code < 0x110000) then some (Char.ofNat code)
  else none

/-- Number spelled by digits of a base, of which there must be at least one. -/
def inBase? (base : Nat) (digit? : Char → Option Nat) (text : List Char) : Option Nat :=
  if text.isEmpty then none
  else text.foldlM (fun n c => (digit? c).map (n * base + ·)) 0

/-- The character that the text between `&` and `;` stands for. -/
def entity? (name : List Char) : Option Char :=
  match name with
  | '#' :: 'x' :: digits => (inBase? 16 hexValue? digits).bind referenced?
  | '#' :: digits =>
    (inBase? 10 (fun c => if c.isDigit then some (digitValue c) else none) digits).bind referenced?
  | _ =>
    if name = "lt".toList then some '<'
    else if name = "gt".toList then some '>'
    else if name = "amp".toList then some '&'
    else if name = "apos".toList then some '\''
    else if name = "quot".toList then some '"'
    else none

/-- The name of a reference, up to its semicolon, and the rest. No ampersand may come first. -/
def entityName? : List Char → Option (List Char × List Char)
  | [] => none
  | c :: text =>
    if c = ';' then some ([], text)
    else if c = '&' then none
    else consFirst c (entityName? text)

theorem length_of_entityName? {text name rest : List Char}
    (h : entityName? text = some (name, rest)) : rest.length < text.length := by
  induction text generalizing name rest with
  | nil => simp [entityName?] at h
  | cons c text ih =>
    rw [entityName?] at h
    split at h
    · simp only [Option.some.injEq, Prod.mk.injEq] at h
      obtain ⟨-, rfl⟩ := h
      simp
    · split at h
      · cases h
      · obtain ⟨n, hn, -⟩ := consFirst_eq_some_iff.1 h
        have := ih hn
        simp only [List.length_cons]
        omega

/-- The text with every reference replaced; none if an ampersand starts no reference. -/
def unescape? (text : List Char) : Option (List Char) :=
  match text with
  | [] => some []
  | c :: rest =>
    if c = '&' then
      match _h : entityName? rest with
      | none => none
      | some (name, after) =>
        match entity? name with
        | none => none
        | some d => (unescape? after).map (d :: ·)
    else (unescape? rest).map (c :: ·)
termination_by text.length
decreasing_by
  · have := length_of_entityName? _h
    simp only [List.length_cons]
    omega
  · simp

/-- Replace references by their characters, or keep the whole text if one of them is invalid. -/
def unescape (s : String) : String :=
  match unescape? s.toList with
  | some text => String.ofList text
  | none => s

end XmlTemplate.Text
