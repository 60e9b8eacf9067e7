import XmlTemplate.Dictionary

/-!
# Stored form of dictionaries

Dictionaries as JSON trees. The keys of the entries are the keys of an object; missing
duplicates count as none. `Dictionary.ofDraft?` reads what `Dictionary.toJson` writes; it takes
an array of the fields as well.
-/

namespace XmlTemplate.Dictionary

def toJson (d : Dictionary) : Json :=
  .object [
    ("file", .string d.file), ("language", .string d.language),
    ("entries", .object (d.entries.map fun (key, text) => (key, .string text))),
    ("duplicates", .array (d.duplicates.map .string))]

/-- The stored keys of duplicates. -/
def duplicatesOfDraft? (fields : Table Json.Draft) : Option (List String) :=
  match fields.get? "duplicates" with
  | none => some []
  | some d => d.items?.bind (·.mapM Json.Draft.string?)

def ofDraft? (d : Json.Draft) : Option Dictionary := do
  let fields ← d.recordFrom? 3 ["file", "language", "entries", "duplicates"]
  let file ← Json.Draft.required? fields "file" Json.Draft.string?
  let language ← Json.Draft.required? fields "language" Json.Draft.string?
  let entries ← Json.Draft.required? fields "entries" (Json.Draft.table? Json.Draft.string?)
  let duplicates ← duplicatesOfDraft? fields
  return ⟨file, language, entries, duplicates⟩

end XmlTemplate.Dictionary
