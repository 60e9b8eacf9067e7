import XmlTemplate.Dictionary.Stored
import XmlTemplate.Files
import XmlTemplate.Template.Stored

/-!
# The cache of compiled sources

Compiled templates and dictionaries are kept as files below the folder of the cache, one
folder for each kind. An entry names the source that it was made of and the time of its last
change; `load?` answers only if both agree, so that an entry of another source under the same
file name counts as none. Storing may fail, which changes nothing.
-/

namespace XmlTemplate

/-- A cache on a folder. -/
structure Cache where
  folder : String
  /-- Name of the file for the entry of a source. Two sources may have the same. -/
  entryName : String → String

namespace Cache

/-- What is cached. -/
inductive Kind where
  | templates
  | dictionaries
  deriving Repr, DecidableEq

/-- Folder of a kind within the cache. -/
def Kind.folder : Kind → String
  | templates => "templates"
  | dictionaries => "dictionaries"

/-- Version of the form of entries. -/
def version : Nat := 1

/-- An entry: what was made of a source as it was at a time. -/
structure Entry (α : Type) where
  source : String
  modified : Nat
  payload : α

namespace Entry

def toJson (e : Entry Json) : Json :=
  .object [
    ("version", .int version), ("source", .string e.source), ("mtime", .int e.modified),
    ("payload", e.payload)]

/-- Read an entry of the current version; `read?` reads its payload. -/
def ofDraft? (read? : Json.Draft → Option α) (d : Json.Draft) : Option (Entry α) := do
  let fields ← d.record? ["version", "source", "mtime", "payload"]
  let stored ← Json.Draft.required? fields "version" (Json.Draft.nat? 0xffffffff)
  let source ← Json.Draft.required? fields "source" Json.Draft.string?
  let modified ← Json.Draft.required? fields "mtime" (Json.Draft.nat? maxStored)
  let payload ← Json.Draft.required? fields "payload" read?
  if stored = version then return ⟨source, modified, payload⟩ else none

end Entry

/-- A name of 16 hexadecimal digits for a source: the 64-bit hash of its UTF-8 bytes that takes
each byte by an exclusive or and a product with a prime. -/
def digest (source : String) : String :=
  let hash := source.toUTF8.foldl (fun (h : UInt64) b => (h ^^^ b.toUInt64) * 0x100000001b3)
    0xcbf29ce484222325
  String.ofList ((List.range 16).map fun i => Nat.digitChar (hash.toNat / Nat.pow 16 (15 - i) % 16))

-- ---------------------------------------------------------------------------
-- Entries
-- ---------------------------------------------------------------------------

/-- The folder of a kind. -/
def kindPath (cache : Cache) (kind : Kind) : String := Path.within cache.folder kind.folder

/-- The file for the entry of a source. -/
def entryPath (cache : Cache) (kind : Kind) (source : String) : String :=
  Path.within (cache.kindPath kind) (cache.entryName source ++ ".json")

/-- What is stored for a source as it was at a time; `read?` reads the payload. -/
def load? (cache : Cache) (kind : Kind) (read? : Json.Draft → Option α) (source : String)
    (modified : Nat) (files : Files) : Option α := do
  let (content, _) ← files.file? (cache.entryPath kind source)
  let entry ← content.draft?.bind (Entry.ofDraft? read?)
  if entry.modified = modified ∧ entry.source = source then return entry.payload else none

/-- Store what was made of a source; nothing changes if the entry cannot be written. -/
def store (cache : Cache) (kind : Kind) (entry : Entry Json) (files : Files) : Files :=
  (files.write? (cache.entryPath kind entry.source) (.document entry.toJson) entry.modified).getD
    files

def loadTemplate? (cache : Cache) : String → Nat → Files → Option Template :=
  cache.load? .templates Template.ofDraft?

def storeTemplate (cache : Cache) (template : Template) (modified : Nat) : Files → Files :=
  cache.store .templates ⟨template.path, modified, template.toJson⟩

def loadDictionary? (cache : Cache) : String → Nat → Files → Option Dictionary :=
  cache.load? .dictionaries Dictionary.ofDraft?

def storeDictionary (cache : Cache) (source : String) (dictionary : Dictionary)
    (modified : Nat) : Files → Files :=
  cache.store .dictionaries ⟨source, modified, dictionary.toJson⟩

-- ---------------------------------------------------------------------------
-- The whole cache
-- ---------------------------------------------------------------------------

/-- Number of stored files of a kind. -/
def count (cache : Cache) (kind : Kind) (files : Files) : Nat :=
  files.countIn (cache.kindPath kind)

/-- Remove the entries of a kind. A file in place of the folder cannot be removed; the tree then
stays as it is and the second part is false. -/
def clearKind (cache : Cache) (kind : Kind) (files : Files) : Files × Bool :=
  let path := cache.kindPath kind
  if (files.node? path).isNone then (files, true)
  else match files.removeFolder? path with
    | some files => (files, true)
    | none => (files, false)

/-- Remove all entries, templates first. The second part is false if a folder cannot be removed,
where the removal ends. -/
def clear (cache : Cache) (files : Files) : Files × Bool :=
  match cache.clearKind .templates files with
  | (files, true) => cache.clearKind .dictionaries files
  | (files, false) => (files, false)

end Cache

end XmlTemplate
