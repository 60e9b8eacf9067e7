import XmlTemplate.Fault
import XmlTemplate.Json.Reader
import XmlTemplate.Json.Text
import XmlTemplate.Markup.Reader
import XmlTemplate.Path
import XmlTemplate.Text.Entity
import XmlTemplate.Yaml.Reading

/-!
# Dictionaries

A dictionary maps keys to texts of one language. Whatever the format of its file, the file is
first a list of occurrences, keys with their texts in the order of the file; the dictionary
keeps the first text of each key and lists the keys of all later occurrences.
-/

namespace XmlTemplate

/-- The texts of one language. -/
structure Dictionary where
  /-- File within the folder of the language. -/
  file : String
  language : String
  entries : Table String
  /-- Keys of the occurrences after the first, in order. -/
  duplicates : List String

namespace Dictionary

/-- No entries. -/
def blank (file language : String) : Dictionary := ⟨file, language, [], []⟩

/-- Add an occurrence. The first text of a key stays. -/
def insert (d : Dictionary) : String × String → Dictionary
  | (key, text) =>
    if d.entries.has key then { d with duplicates := d.duplicates ++ [key] }
    else { d with entries := d.entries.put key text }

/-- The dictionary of a list of occurrences. -/
def ofOccurrences (file language : String) (occurrences : List (String × String)) : Dictionary :=
  occurrences.foldl insert (blank file language)

/-- The text of a key. -/
def get? (key : String) (d : Dictionary) : Option String := d.entries.get? key

-- ---------------------------------------------------------------------------
-- Occurrences
-- ---------------------------------------------------------------------------

mutual

/-- Occurrences in a document: the elements called `entry` that have a key and are not within
another one. -/
def ofElement : Element → List (String × String)
  | ⟨name, attributes, _, _, children⟩ =>
    match attributes.lookup "key" with
    | some key =>
      if Element.localPart name = "entry" then
        [(Text.unescape key, Element.contentMarkup children)]
      else ofContent children
    | none => ofContent children

def ofContent : List (Node Element) → List (String × String)
  | [] => []
  | .text _ :: rest => ofContent rest
  | .child e :: rest => ofElement e ++ ofContent rest

end

/-- The key of a field of a map that has a key itself. -/
def joinKey (outer key : String) : String := if outer = "" then key else outer ++ "." ++ key

mutual

/-- Occurrences in a tree: its leaves under their keys joined by points. Lists do not count. -/
def ofTree (outer : String) : Json → List (String × String)
  | .null => if outer = "" then [] else [(outer, "")]
  | .bool b => [(outer, if b then "true" else "false")]
  | .int n => [(outer, String.ofList (Number.intText n))]
  | .float f => [(outer, Json.floatText f)]
  | .string s => [(outer, s)]
  | .array _ => []
  | .object fields => ofFields outer fields

def ofFields (outer : String) : List (String × Json) → List (String × String)
  | [] => []
  | (key, value) :: rest => ofTree (joinKey outer key) value ++ ofFields outer rest

end

-- ---------------------------------------------------------------------------
-- Formats
-- ---------------------------------------------------------------------------

/-- The formats of dictionary files. -/
inductive Format where
  | xml
  | json
  | yaml
  deriving Repr, DecidableEq

/-- The format that the extension of a file names; XML if it names none. -/
def Format.ofFile (file : String) : Format :=
  match Path.extension? file with
  | some "yml" => .yaml
  | some "yaml" => .yaml
  | some "json" => .json
  | _ => .xml

/-- The occurrences of a tree, whose top must be a map or nothing. -/
def occurrencesOfTree (file : String) : Option Json → Except Fault (List (String × String))
  | none => .error (.dictionary file .malformed)
  | some .null => .ok []
  | some (.object fields) => .ok (ofFields "" fields)
  | some _ => .error (.dictionary file .noMap)

/-- The occurrences of a text in a format. -/
def occurrences (format : Format) (file text : String) :
    Except Fault (List (String × String)) :=
  match format with
  | .xml =>
    match Document.read text with
    | .error (line, problem) => .error (.markup ⟨file, line⟩ problem)
    | .ok document => .ok (ofElement document.root)
  | .json => occurrencesOfTree file (Json.read? text)
  | .yaml => occurrencesOfTree file (Yaml.json? text)

/-- The dictionary in the text of a file, in the format of the file. -/
def parse (file language text : String) : Except Fault Dictionary :=
  (occurrences (.ofFile file) file text).map (ofOccurrences file language)

end Dictionary

end XmlTemplate
