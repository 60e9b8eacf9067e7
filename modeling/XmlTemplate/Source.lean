import XmlTemplate.Fault
import XmlTemplate.Files

/-!
# Sources of templates

Templates are read by path, from memory or from a folder. A source tells the time of the last
change of a template; in memory this is the number of replacements, so that every new text has
a time of its own.
-/

namespace XmlTemplate

/-- A text with the time of its last change. -/
structure Revision where
  text : String
  modified : Nat
  deriving Repr, DecidableEq

/-- Templates in memory under normalized paths. -/
structure Shelf where
  revisions : Table Revision

namespace Shelf

def empty : Shelf := ⟨[]⟩

def get? (path : String) (shelf : Shelf) : Option Revision :=
  shelf.revisions.get? (Path.normalize path)

/-- Put a text under a path, as a new revision of what is there. -/
def put (path text : String) (shelf : Shelf) : Shelf :=
  let modified := match shelf.get? path with
    | some revision => revision.modified + 1
    | none => 0
  ⟨shelf.revisions.put (Path.normalize path) ⟨text, modified⟩⟩

end Shelf

/-- Where templates come from. -/
inductive Source where
  | memory (shelf : Shelf)
  | folder (root : String)

namespace Source

/-- The file of a template below a folder. -/
def filePath (root path : String) : String := Path.within root (Path.normalize path)

/-- The current revision of the template at a path. -/
def read (files : Files) (path : String) : Source → Except Fault Revision
  | memory shelf =>
    match shelf.get? path with
    | some revision => .ok revision
    | none => .error (.missingSource none (Path.normalize path))
  | folder root =>
    match files.file? (filePath root path) with
    | some (content, modified) => .ok ⟨content.shown, modified⟩
    | none => .error (.missingSource none (filePath root path))

end Source

end XmlTemplate
