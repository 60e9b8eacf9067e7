import XmlTemplate.Fault
import XmlTemplate.Files
import XmlTemplate.Value.Json
import XmlTemplate.Yaml.Reading

/-!
# Configurations

The configuration of a workspace is a YAML map. Fields that are missing have defaults, unknown
fields are ignored, and a field that is given twice is an error. Folders are read from the base
folder of the workspace.
-/

namespace XmlTemplate

structure Config where
  /-- Lead of the control namespace in templates that declare none. -/
  lead : String
  templateRoot : String
  /-- Folder with a folder of dictionaries for each language. -/
  translationPath : String
  language : Option String
  /-- Folder of the cache of compiled sources. -/
  cacheFolder : Option String
  constants : Table Json

/-- Why a command has no result. -/
inductive Trouble where
  | stop (stop : Stop)
  /-- A text that should be JSON. -/
  | badJson
  /-- A text that should be YAML, or that is YAML of another shape. -/
  | badYaml
  /-- A file that cannot be read or written. -/
  | files
  | unreadableData (path : String)
  | unknownDataFormat (path : String)
  deriving Repr, DecidableEq

namespace Config

/-- The configuration of a workspace without one. -/
def default : Config :=
  { lead := "fig:", templateRoot := ".", translationPath := "lang", language := none,
    cacheFolder := none, constants := [] }

-- ---------------------------------------------------------------------------
-- Reading
-- ---------------------------------------------------------------------------

/-- Names of the fields. -/
def fieldNames : List String :=
  ["namespace", "template_root", "translation_path", "language", "cache_dir", "constants"]

/-- Read a field. Unknown fields are not looked at. -/
def readField (name : String) (node : Yaml) (c : Config) : Yaml.Reading Config := do
  match name with
  | "namespace" => return { c with lead := ← Yaml.text node }
  | "template_root" => return { c with templateRoot := ← Yaml.text node }
  | "translation_path" => return { c with translationPath := ← Yaml.text node }
  | "language" => return { c with language := ← Yaml.optionalText node }
  | "cache_dir" => return { c with cacheFolder := ← Yaml.optionalText node }
  | "constants" =>
    let constants ← Yaml.jsonFields (Yaml.maxDepth - 2) (← Yaml.entries node)
    return { c with constants := Table.ofPairs constants }
  | _ => return c

/-- Read fields into a configuration. `seen` are the names of the fields before. -/
def readFields (seen : List String) (c : Config) : List (Yaml × Yaml) → Yaml.Reading Config
  | [] => return c
  | (key, node) :: rest => do
    let name ← Yaml.text key
    if fieldNames.contains name && seen.contains name then failure
    else readFields (name :: seen) (← readField name node c) rest

/-- The configuration that a document spells. -/
def ofYaml? (root : Yaml) : Option Config :=
  Yaml.run? (do readFields [] default (← Yaml.entries root)) root

/-- The lead ends with a colon. -/
def closeLead (c : Config) : Config :=
  if c.lead.toList.getLast? == some ':' then c else { c with lead := c.lead ++ ":" }

/-- Load a configuration; a file that is not there gives the default one. -/
def load (path : String) (files : Files) : Except Trouble Config :=
  match files.node? path with
  | none => .ok default
  | some .folder => .error .files
  | some (.file content _) =>
    match (Yaml.read? content.shown).bind ofYaml? with
    | some c => .ok c.closeLead
    | none => .error .badYaml

/-- Read the folders from a base folder. -/
def relativeTo (base : String) (c : Config) : Config :=
  { c with
    templateRoot := Path.within base c.templateRoot
    translationPath := Path.within base c.translationPath
    cacheFolder := c.cacheFolder.map (Path.within base) }

end Config

end XmlTemplate
