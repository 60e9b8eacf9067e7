import XmlTemplate.Workspace.Basic
import XmlTemplate.Workspace.Data

/-!
# Commands

What can be done with a workspace: render a template into a file, check all dictionaries, compile
all templates, and clear the cache. Checking and compiling go over all files of a folder and report
what is wrong with them.
-/

namespace XmlTemplate.Workspace

-- ---------------------------------------------------------------------------
-- Rendering
-- ---------------------------------------------------------------------------

/-- Render a template with the data of a file. -/
def render (w : Workspace) (template : String) (data language : Option String) (m : Memory) :
    Except Trouble Rendered × Memory :=
  let loaded := match data with
    | some path => Value.load path m.files
    | none => .ok .null
  match loaded with
  | .error trouble => (.error trouble, m)
  | .ok v =>
    let (result, m) := w.engine.renderFile template v language m
    (result.mapError .stop, m)

/-- Render a template into a file. -/
def renderTo (w : Workspace) (template : String) (data language : Option String)
    (output : String) (modified : Nat) (m : Memory) : Except Trouble Rendered × Memory :=
  match w.render template data language m with
  | (.error trouble, m) => (.error trouble, m)
  | (.ok rendered, m) =>
    match m.files.write? output (.text rendered.output) modified with
    | some files => (.ok rendered, { m with files := files })
    | none => (.error .files, m)

-- ---------------------------------------------------------------------------
-- Checking dictionaries
-- ---------------------------------------------------------------------------

/-- What was found in a folder of dictionaries. -/
structure CheckReport where
  files : Nat
  entries : Nat
  /-- Files with the keys that they repeat. -/
  duplicates : List (String × String)
  /-- Files that cannot be read, with the reasons. -/
  errors : List (String × String)
  deriving Repr, DecidableEq

namespace CheckReport

def empty : CheckReport := ⟨0, 0, [], []⟩

def isClean (r : CheckReport) : Bool := r.duplicates.isEmpty && r.errors.isEmpty

end CheckReport

/-- Extensions of dictionaries. -/
def dictionaryExtensions : List String := ["xml", "yml", "yaml", "json"]

/-- The language of a dictionary and its file within the language, by its path from the folder of
all languages. -/
def languageAndFile (path : String) : String × String :=
  let path := path.toList
  let (language, file) := (Text.cutAt? (· == '/') path).getD (path, [])
  (String.ofList language, String.ofList (file.map fun c => if c = '\\' then '/' else c))

/-- The path of a file below a folder, or of the folder if it is the file itself. -/
def filePath (folder inner : String) : String :=
  if inner == "" then folder else Path.within folder inner

/-- Add what is found in a file to a report. -/
def checkFile (folder : String) (r : CheckReport) (file : String × Content × Nat) : CheckReport :=
  let (path, content, _) := file
  match Path.extension? (filePath folder path) with
  | none => r
  | some extension =>
    if dictionaryExtensions.contains extension then
      let (language, name) := languageAndFile path
      match Dictionary.parse name language content.shown with
      | .ok d => { r with
          files := r.files + 1
          entries := r.entries + d.entries.length
          duplicates := r.duplicates ++ d.duplicates.map fun key => (path, key) }
      | .error fault => { r with
          files := r.files + 1
          errors := r.errors ++ [(path, fault.message)] }
    else r

/-- Check all dictionaries below a folder. -/
def checkFolder (folder : String) (files : Files) : CheckReport :=
  (files.below folder).foldl (checkFile folder) .empty

/-- Check the dictionaries below a folder, or those of the workspace. -/
def check (w : Workspace) (folder : Option String) (files : Files) : CheckReport :=
  checkFolder (folder.getD w.config.translationPath) files

-- ---------------------------------------------------------------------------
-- Compiling templates
-- ---------------------------------------------------------------------------

/-- What came of compiling a folder of templates. -/
structure CompileReport where
  compiled : Nat
  /-- Templates that cannot be compiled, with the reasons. -/
  failures : List (String × String)
  deriving Repr, DecidableEq

/-- Compile a file if it is a template below the root of templates. -/
def compileFile (w : Workspace) (folder : String) (state : CompileReport × Memory)
    (file : String × Content × Nat) : CompileReport × Memory :=
  let path := filePath folder file.1
  match Path.extension? path, Path.from? w.config.templateRoot path with
  | some "xml", some template =>
    match w.engine.load template state.2 with
    | (.ok _, m) => ({ state.1 with compiled := state.1.compiled + 1 }, m)
    | (.error fault, m) =>
      ({ state.1 with failures := state.1.failures ++ [(template, fault.message)] }, m)
  | _, _ => state

/-- Compile all templates below a folder, or all of the workspace. -/
def compile (w : Workspace) (folder : Option String) (m : Memory) : CompileReport × Memory :=
  let folder := folder.getD w.config.templateRoot
  (m.files.below folder).foldl (w.compileFile folder) (⟨0, []⟩, m)

-- ---------------------------------------------------------------------------
-- Cleaning
-- ---------------------------------------------------------------------------

/-- Clear the cache, if there is one. -/
def clean (w : Workspace) (m : Memory) : Except Trouble Unit × Memory :=
  match w.engine.cache with
  | none => (.ok (), m)
  | some cache =>
    match cache.clear m.files with
    | (files, true) => (.ok (), { m with files := files })
    | (files, false) => (.error (.stop (.fault .unreadable)), { m with files := files })

end XmlTemplate.Workspace
