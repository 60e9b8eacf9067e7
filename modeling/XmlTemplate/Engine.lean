import XmlTemplate.Dictionary.Source
import XmlTemplate.Function.BuiltIn
import XmlTemplate.Source
import XmlTemplate.Template.Compile

/-!
# Engines

An engine says where templates and dictionaries come from and which functions, feeds and
filters there are. What it remembers between two uses is a value of its own, the memory:
compiled templates, which are used again as long as their sources do not change, and the files
that a cache may write. `Engine.load` gives every compilation a number, so that two uses of one
compilation can be told from two compilations of one text.
-/

namespace XmlTemplate

/-- A filter changes the content of a tag. -/
abbrev Filter := String → String

/-- A feed makes data of parameters, or fails with a message. -/
abbrev Feed := Table Value → Except String Value

/-- Finds the feed of a class for the parameters of its first use. -/
abbrev FeedFactory := String → Table Value → Option Feed

/-- What templates are rendered with. -/
structure Engine where
  /-- Lead of the control namespace in templates that declare none. -/
  lead : String
  /-- Language of renders that ask for none. -/
  language : Option String
  source : Source
  dictionaries : Dictionary.Source
  cache : Option Cache
  /-- Factories of functions, the latest first; built-in functions come after them. -/
  functions : List FunctionFactory
  feeds : List FeedFactory
  filters : List (String → Option Filter)
  constants : Table Value
  /-- Seconds since 1970. -/
  now : Int

/-- A compiled template with the number of its compilation. -/
structure Compiled where
  serial : Nat
  template : Template

/-- What an engine remembers. -/
structure Memory where
  files : Files
  /-- Compiled templates by path, with the times of their sources. -/
  compiled : Table (Nat × Compiled)
  /-- Expressions in attributes that were parsed before. -/
  parsed : Table Expr
  /-- Number of the next compilation. -/
  serial : Nat

/-- Nothing but files. -/
def Memory.ofFiles (files : Files) : Memory := ⟨files, [], [], 0⟩

/-- Forget all compiled templates. -/
def Memory.clear (m : Memory) : Memory := { m with compiled := [] }

namespace Engine

/-- An engine without templates. -/
def default : Engine :=
  { lead := "fig:", language := none, source := .memory .empty, dictionaries := .memory [],
    cache := none, functions := [], feeds := [], filters := [], constants := [], now := 0 }

/-- All factories of functions in the order in which they are asked. -/
def functionFactories (e : Engine) : List FunctionFactory := e.functions ++ [BuiltIn.factory]

/-- The function that a name stands for. -/
def function? (e : Engine) (name : String) : Option Function :=
  e.functionFactories.findSome? fun factory => factory name

/-- The filter that a name stands for. -/
def filter? (e : Engine) (name : String) : Option Filter :=
  e.filters.findSome? fun factory => factory name

-- ---------------------------------------------------------------------------
-- Templates
-- ---------------------------------------------------------------------------

/-- Compile a text that does not come from the source. -/
def compile (e : Engine) (path text : String) : Except Fault Template :=
  Template.compile path e.lead text

/-- Remember the compilation of a normalized path. -/
def remember (path : String) (modified : Nat) (template : Template) (m : Memory) :
    Compiled × Memory :=
  let compiled : Compiled := ⟨m.serial, template⟩
  (compiled, { m with
    compiled := m.compiled.put path (modified, compiled), serial := m.serial + 1 })

/-- Load the template at a normalized path whose source was read: from the cache, or else by
compiling it for the cache. -/
def loadRevision (e : Engine) (path : String) (revision : Revision) (m : Memory) :
    Except Fault Compiled × Memory :=
  match e.cache.bind fun cache => cache.loadTemplate? path revision.modified m.files with
  | some template =>
    let (compiled, m) := remember path revision.modified template m
    (.ok compiled, m)
  | none =>
    match e.compile path revision.text with
    | .error fault => (.error fault, m)
    | .ok template =>
      let files := match e.cache with
        | some cache => cache.storeTemplate template revision.modified m.files
        | none => m.files
      let (compiled, m) := remember path revision.modified template { m with files := files }
      (.ok compiled, m)

/-- Load a template by path. It is compiled only if its source has changed. -/
def load (e : Engine) (path : String) (m : Memory) : Except Fault Compiled × Memory :=
  let path := Path.normalize path
  match e.source.read m.files path with
  | .error fault => (.error fault, m)
  | .ok revision =>
    match m.compiled.get? path with
    | some (modified, compiled) =>
      if modified = revision.modified then (.ok compiled, m) else e.loadRevision path revision m
    | none => e.loadRevision path revision m

/-- Load a dictionary. -/
def loadDictionary (e : Engine) (language file : String) (m : Memory) :
    Except Fault Dictionary × Memory :=
  let (result, files) := e.dictionaries.load e.cache language file m.files
  (result, { m with files := files })

end Engine

end XmlTemplate
