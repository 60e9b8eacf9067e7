import XmlTemplate.Workspace.Config

/-!
# Data files
-/

namespace XmlTemplate

namespace Trouble

/-- What a character of a path is written as in a message. -/
def escaped (c : Char) : List Char :=
  if c = '"' ∨ c = '\\' then ['\\', c]
  else if c = '\n' then ['\\', 'n']
  else if c = '\r' then ['\\', 'r']
  else if c = '\t' then ['\\', 't']
  else [c]

/-- A path in quotes. -/
def quoted (path : String) : String :=
  "\"" ++ String.ofList (path.toList.flatMap escaped) ++ "\""

/-- The wording of a trouble. -/
def message : Trouble → String
  | stop (.fault fault) => fault.message
  | stop .overflow => "An index is out of range"
  | stop .depth => "Templates are nested too deeply"
  | badJson => "Malformed JSON"
  | badYaml => "Malformed YAML"
  | files => "IO error"
  | unreadableData path => "Failed to read data file " ++ quoted path
  | unknownDataFormat path =>
    "Unsupported data file " ++ quoted path ++ " (expected .json, .yml or .yaml)"

end Trouble

namespace Value

/-- The value in the text of a file, whose extension names the format. -/
def ofFileText (path text : String) : Except Trouble Value :=
  match Path.extension? path with
  | some "json" => match Json.read? text with
    | some j => .ok (ofJson j)
    | none => .error .badJson
  | some "yml" | some "yaml" => match Yaml.json? text with
    | some j => .ok (ofJson j)
    | none => .error .badYaml
  | _ => .error (.unknownDataFormat path)

/-- Load the value in a data file. -/
def load (path : String) (files : Files) : Except Trouble Value :=
  match files.file? path with
  | some (content, _) => ofFileText path content.shown
  | none => .error (.unreadableData path)

end Value

end XmlTemplate
