import XmlTemplate.Cache

/-!
# Sources of dictionaries

Dictionaries are found by language and file, in memory or below a folder that has a folder for
each language. Those from files may go through a cache, under their normalized paths.
-/

namespace XmlTemplate.Dictionary

/-- Where dictionaries come from. -/
inductive Source where
  /-- Dictionaries in memory, the latest first. -/
  | memory (dictionaries : List Dictionary)
  | folder (root : String)

namespace Source

/-- The path of a file of a language. -/
def requested (language file : String) : String := language ++ "/" ++ file

/-- Load a file from below a folder, which may be changed by the cache. -/
def loadFile (cache : Option Cache) (root language file : String) (files : Files) :
    Except Fault Dictionary × Files :=
  match Path.confine? (requested language file) with
  | none => (.error (.missingSource none (requested language file)), files)
  | some key =>
    match files.file? (Path.within root key) with
    | none => (.error (.missingSource none (Path.within root key)), files)
    | some (content, modified) =>
      match cache.bind fun cache => cache.loadDictionary? key modified files with
      | some dictionary => (.ok dictionary, files)
      | none =>
        match Dictionary.parse file language content.shown with
        | .error fault => (.error fault, files)
        | .ok dictionary =>
          match cache with
          | some cache => (.ok dictionary, cache.storeDictionary key dictionary modified files)
          | none => (.ok dictionary, files)

/-- Load the dictionary of a file in a language. -/
def load (cache : Option Cache) (language file : String) (files : Files) :
    Source → Except Fault Dictionary × Files
  | memory dictionaries =>
    match dictionaries.find? fun d => d.language == language && d.file == file with
    | some dictionary => (.ok dictionary, files)
    | none => (.error (.missingSource none (requested language file)), files)
  | folder root => loadFile cache root language file files

end Source

end XmlTemplate.Dictionary
