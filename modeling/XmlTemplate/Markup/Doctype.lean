import XmlTemplate.Text.Basic

/-!
# Document types

Where a document type ends. Before the internal subset a `>` within quotes does not count. Within
the subset, comments and instructions run to their own ends; entities, attribute lists and
notations end at a `>` outside of quotes, and all other parts at the first `>`.
-/

namespace XmlTemplate.Markup

def isQuote (c : Char) : Bool := c == '\'' || c == '"'

/-- A place within a document type. -/
inductive DoctypePlace where
  /-- Before the subset, within quotes or not. -/
  | head (quote : Option Char)
  | subset
  /-- So many characters before another place. -/
  | before (left : Nat) (place : DoctypePlace)
  /-- A declaration of the subset that may hold quoted text, within quotes or not. -/
  | declaration (quote : Option Char)
  /-- A part of the subset that ends at the first `>`. -/
  | markup
  /-- A comment, after so many dashes, of which two count. -/
  | comment (dashes : Nat)
  /-- An instruction, just after a question mark or not. -/
  | instruction (asked : Bool)
  | afterSubset
  deriving Repr, DecidableEq

namespace DoctypePlace

/-- What is open after a character within quotes or not. -/
def quoteAfter (quote : Option Char) (c : Char) : Option Char :=
  match quote with
  | none => if isQuote c then some c else none
  | some q => if c = q then none else some q

/-- Words that start declarations with quoted text. -/
def quotedDeclarations : List (List Char) :=
  ["!ENTITY".toList, "!ATTLIST".toList, "!NOTATION".toList]

/-- The part of the subset that a text starts after its `<`. -/
def ofPart (text : List Char) : DoctypePlace :=
  if (Text.after? ['?'] text).isSome then before 1 (instruction false)
  else if (Text.after? ['!', '-', '-'] text).isSome then before 3 (comment 0)
  else if quotedDeclarations.any fun word => (Text.after? word text).isSome then declaration none
  else markup

/-- The place after a character, before `rest`. -/
def next (c : Char) (rest : List Char) : DoctypePlace → DoctypePlace
  | head none => if c = '[' then subset else head (quoteAfter none c)
  | head (some q) => head (quoteAfter (some q) c)
  | subset => if c = ']' then afterSubset else if c = '<' then ofPart rest else subset
  | before left place => if left ≤ 1 then place else before (left - 1) place
  | declaration none => if c = '>' then subset else declaration (quoteAfter none c)
  | declaration (some q) => declaration (quoteAfter (some q) c)
  | markup => if c = '>' then subset else markup
  | comment dashes =>
    if c = '-' then comment (min 2 (dashes + 1))
    else if c = '>' ∧ dashes = 2 then subset
    else comment 0
  | instruction asked => if c = '>' ∧ asked then subset else instruction (c == '?')
  | afterSubset => afterSubset

/-- The document type up to its closing `>`, and the rest. -/
def body? (place : DoctypePlace) : List Char → Option (List Char × List Char)
  | [] => none
  | c :: rest =>
    if c = '>' ∧ (place = head none ∨ place = afterSubset) then some ([], rest)
    else Text.consFirst c (body? (place.next c rest) rest)

theorem length_of_body? {place : DoctypePlace} {text body rest : List Char}
    (h : body? place text = some (body, rest)) : rest.length ≤ text.length := by
  induction text generalizing place body with
  | nil => cases h
  | cons c text ih =>
    simp only [body?] at h
    split at h
    · cases h
      simp
    · obtain ⟨b, hb, -⟩ := Text.consFirst_eq_some_iff.1 h
      have := ih hb
      simp only [List.length_cons]
      omega

end DoctypePlace

end XmlTemplate.Markup
