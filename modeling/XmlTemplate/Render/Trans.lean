import XmlTemplate.Render.Content

/-!
# Translations

A translated text may hold placeholders, which stand for parameters of the tag and, where there is
none of the name, for attributes of the tag as expressions. A placeholder for neither is dropped.
A text that cannot be found, or that is empty in the end, is replaced by its key with a warning.
-/

namespace XmlTemplate.Render

variable (e : Engine) (inner : Renderer) (view : Nat)

-- ---------------------------------------------------------------------------
-- Placeholders
-- ---------------------------------------------------------------------------

/-- The text that a placeholder stands for. -/
def placeholder (t : Tag) (parameters : Table Value) (name : String) : Render String :=
  match parameters.get? name with
  | some v => textOf (t.place view) v
  | none =>
    match t.attributes.lookup name with
    | some raw => do
      let v ← evaluateAttribute e (t.place view) raw
      textOf (t.place view) v
    | none => return ""

/-- Add the text of a placeholder to those known, unless it is known. -/
def addPlaceholder (t : Tag) (parameters : Table Value) (known : Table String) :
    Piece → Render (Table String)
  | .literal _ => return known
  | .run name =>
    let name := String.ofList name
    if known.has name then return known
    else do
      let text ← placeholder e view t parameters name
      return Table.put name text known

/-- A piece of a translation with the texts of placeholders. -/
def filled (known : Table String) : Piece → List Char
  | .literal text => text
  | .run name => ((known.get? (String.ofList name)).getD "").toList

/-- Fill the placeholders of a text. Parameters are evaluated only if there is a placeholder, and
each placeholder once. -/
def fillPlaceholders (t : Tag) (text : String) : Render String := do
  let pieces := Piece.ofTranslation text
  if pieces.any Piece.isRun then
    let parameters ← parameters e inner view t
    let known ← pieces.foldlM (addPlaceholder e view t parameters) []
    return String.ofList (pieces.flatMap (filled known))
  else return text

-- ---------------------------------------------------------------------------
-- Tags
-- ---------------------------------------------------------------------------

/-- The text with its placeholders filled, or the key with a warning if nothing is left. -/
def finish (t : Tag) (key text : String) : Render String := do
  let text ← fillPlaceholders e inner view t text
  if text == "" then
    warnAt (t.place view) fun location => .emptyTranslation location key
    return key
  else return text

/-- Translate the key of a tag, which is its content if it has none. In the language of the source
the content is the text. -/
def trans (t : Tag) (key dict source : Option String) : Render String := do
  let s ← get
  if source == s.language then
    let text ← content inner view t
    finish e inner view t (key.getD "") text
  else
    let key ← match key with
      | some key => pure key
      | none => content inner view t
    match (← get).views.translate view key dict with
    | .found text => finish e inner view t key text
    | .missingEntry =>
      warnAt (t.place view) fun location => .missingEntry location key
      return key
    | .missingDictionary =>
      failAt (t.place view) fun location => .unknownDictionary location (dict.getD "")

end XmlTemplate.Render
