import XmlTemplate.Json.Written
import XmlTemplate.Path

/-!
# Files

A tree of files, as a table of nodes under their places. A place is a path without idle
segments: `a/b`, or `/a/b` below the root of the file system. The folder that relative paths
start from has the place `""` and the root has the place `/`; both always exist. Paths are
followed segment by segment, so that every segment but the last must lead to a folder.
-/

namespace XmlTemplate

/-- What a file holds. -/
inductive Content where
  | text (text : String)
  /-- A JSON document, kept as the tree that was written. -/
  | document (tree : Json)

namespace Content

/-- The content as a text. -/
def shown : Content → String
  | text s => s
  | document tree => tree.text

/-- The parts of the JSON document that is read from the content, if it is one. -/
def draft? : Content → Option Json.Draft
  | text s => Json.Draft.read? s
  | document tree => some (.ofJson 0 tree)

/-- The value of the JSON document. -/
def tree? (c : Content) : Option Json := c.draft?.bind Json.Draft.value?

end Content

/-- A node of a tree of files. -/
inductive FileNode where
  /-- A file with the time of its last change, in seconds since 1970. -/
  | file (content : Content) (modified : Nat)
  | folder

/-- A tree of files. -/
structure Files where
  nodes : Table FileNode

namespace Files

def empty : Files := ⟨[]⟩

-- ---------------------------------------------------------------------------
-- Places
-- ---------------------------------------------------------------------------

/-- The place of a child of a folder. -/
def child (place name : String) : String :=
  if place == "" || place == "/" then place ++ name else place ++ "/" ++ name

/-- The place of the folder around a place; none at the top. -/
def parent? (place : String) : Option String :=
  if place == "" then none
  else if place == "/" then some "/"
  else match Text.cutAtLast? (· == '/') place.toList with
    | some ([], _) => some "/"
    | some (before, _) => some (String.ofList before)
    | none => some ""

/-- The node at a place. -/
def at? (files : Files) (place : String) : Option FileNode :=
  if place == "" || place == "/" then some .folder else files.nodes.get? place

def isFolderAt (files : Files) (place : String) : Bool :=
  match files.at? place with
  | some .folder => true
  | _ => false

/-- Follow the segments of a path from a folder. `make` gives the tree and the place for a name
in a folder. -/
def follow (make : Files → String → Files) :
    Files → String → List (List Char) → Option (Files × String)
  | files, place, [] => some (files, place)
  | files, place, segment :: rest =>
    if files.isFolderAt place then
      if Path.isIdle segment then follow make files place rest
      else if Path.isClimb segment then
        match parent? place with
        | some outer => follow make files outer rest
        | none => none
      else
        let next := child place (String.ofList segment)
        follow make (make files next) next rest
    else none

/-- Where a path starts and its segments from there. The empty path leads nowhere. -/
def start? (path : String) : Option (String × List (List Char)) :=
  match Text.splitAt (· == '/') path.toList with
  | [[]] => none
  | [] :: segments => some ("/", segments)
  | segments => some ("", segments)

/-- The place that a path leads to, whether there is a node or not. -/
def place? (files : Files) (path : String) : Option String :=
  (start? path).bind fun (place, segments) =>
    (follow (fun files _ => files) files place segments).map (·.2)

/-- The node that a path leads to. -/
def node? (files : Files) (path : String) : Option FileNode :=
  (files.place? path).bind files.at?

-- ---------------------------------------------------------------------------
-- Reading
-- ---------------------------------------------------------------------------

/-- Content and time of change of the file that a path leads to. -/
def file? (files : Files) (path : String) : Option (Content × Nat) :=
  match files.node? path with
  | some (.file content modified) => some (content, modified)
  | _ => none

def isFolder (files : Files) (path : String) : Bool :=
  match files.node? path with
  | some .folder => true
  | _ => false

/-- What follows the place of a folder in the place of a node below it. -/
def below? (folder place : String) : Option String :=
  if folder == "" then if Path.isAbsolute place then none else some place
  else (Text.after? (child folder "").toList place.toList).map String.ofList

/-- The files below the folder that a path leads to, with their paths from there. A path to a file
leads to that file alone, with the empty path. -/
def below (files : Files) (path : String) : List (String × Content × Nat) :=
  match files.place? path with
  | none => []
  | some place =>
    match files.at? place with
    | none => []
    | some (.file content modified) => [("", content, modified)]
    | some .folder =>
      files.nodes.filterMap fun
        | (other, .file content modified) =>
          (below? place other).map fun inner => (inner, content, modified)
        | _ => none

/-- Number of files directly in the folder that a path leads to. -/
def countIn (files : Files) (path : String) : Nat :=
  if files.isFolder path then
    ((files.below path).filter fun (inner, _) => !inner.toList.contains '/').length
  else 0

-- ---------------------------------------------------------------------------
-- Writing
-- ---------------------------------------------------------------------------

/-- Add a folder at a place where nothing is. -/
def addFolder (files : Files) (place : String) : Files :=
  if (files.at? place).isSome then files else ⟨files.nodes.put place .folder⟩

/-- Make the folders that a path leads through; none if one of them is a file. -/
def makeFolders? (files : Files) (path : String) : Option Files :=
  match start? path with
  | none => some files
  | some (place, segments) =>
    (follow addFolder files place segments).bind fun (files, place) =>
      if files.isFolderAt place then some files else none

/-- The path up to its last slash. -/
def parentPath (path : String) : String :=
  match Text.cutAtLast? (· == '/') path.toList with
  | some ([], _) => "/"
  | some (before, _) => String.ofList before
  | none => ""

/-- Write a file and make the folders around it; none if that is not possible. -/
def write? (files : Files) (path : String) (content : Content) (modified : Nat) : Option Files :=
  (files.makeFolders? (parentPath path)).bind fun files =>
    (files.place? path).bind fun place =>
      if files.isFolderAt place then none
      else some ⟨files.nodes.put place (.file content modified)⟩

/-- Remove a file; none if there is none. -/
def remove? (files : Files) (path : String) : Option Files :=
  (files.place? path).bind fun place =>
    match files.at? place with
    | some (.file ..) => some ⟨files.nodes.erase place⟩
    | _ => none

/-- Remove a folder with all that is in it; none if there is no folder. -/
def removeFolder? (files : Files) (path : String) : Option Files :=
  (files.place? path).bind fun place =>
    if files.isFolderAt place then
      some ⟨files.nodes.filter fun (other, _) => other != place && (below? place other).isNone⟩
    else none

end Files

end XmlTemplate
