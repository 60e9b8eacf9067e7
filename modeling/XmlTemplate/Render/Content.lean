import XmlTemplate.Render.Run
import XmlTemplate.Render.Session

/-!
# Content of tags

What a tag takes from its children and attributes: its content, its parameters, the values of its
attributes as expressions, and the attributes that it is written with. Children are rendered by a
renderer that is given from outside, so that nothing here is recursive.
-/

namespace XmlTemplate

/-- Directives that are left out in one rendering of a tag. -/
structure Suppressed where
  walk : Bool
  definition : Bool
  deriving Repr, DecidableEq

/-- No directive is left out. -/
def Suppressed.none : Suppressed := ⟨false, false⟩

/-- Renders a tag of a view. Nothing comes of a tag that is not there or whose output goes to a
slot. -/
abbrev Renderer := Tag → Nat → Suppressed → Render (Option String)

/-- Where a tag of a view stands. -/
def Tag.place (t : Tag) (view : Nat) : Place := ⟨view, t.line⟩

namespace Render

variable (e : Engine) (inner : Renderer) (view : Nat)

/-- A tag without a condition is there. -/
def condition (t : Tag) : Render Bool :=
  match t.directives.cond with
  | some cond => flag e (t.place view) (some cond)
  | none => return true

-- ---------------------------------------------------------------------------
-- Content
-- ---------------------------------------------------------------------------

/-- Add the output of a node to what is there. Attributes and parameters are no content. -/
def addNode (done : String) : Node Tag → Render String
  | .text text => return done ++ text
  | .child child =>
    if child.kind.belongsToParent then return done
    else do
      let fragment ← inner child view .none
      return done ++ fragment.getD ""

/-- The content of a tag. -/
def content (t : Tag) : Render String := t.children.foldlM (addNode inner view) ""

-- ---------------------------------------------------------------------------
-- Parameters
-- ---------------------------------------------------------------------------

/-- Line breaks and tabs, which count as one blank together. -/
def isBreak (c : Char) : Bool := c == '\n' || c == '\r' || c == '\t'

/-- Replace each run of line breaks and tabs by a blank. `inRun` tells that one is under way. -/
def joinLines : (inRun : Bool) → List Char → List Char
  | _, [] => []
  | inRun, c :: rest =>
    if isBreak c then if inRun then joinLines true rest else ' ' :: joinLines true rest
    else c :: joinLines false rest

/-- A text on one line, without blanks around it. -/
def oneLine (text : String) : String :=
  String.ofList (Text.trim Text.isWhiteSpace (joinLines false text.toList))

/-- Add the parameter that a child is, if it is one and is there. -/
def addParameter (done : Table Value) (child : Tag) : Render (Table Value) :=
  match child.kind with
  | .param name value => do
    let isThere ← condition e view child
    if isThere then
      match value with
      | some d =>
        let v ← evaluate e (child.place view) d.expr
        return Table.put name v done
      | none =>
        let text ← content inner view child
        return Table.put name (.string (oneLine text)) done
    else return done
  | _ => return done

/-- The parameters among the children of a tag. -/
def parameters (t : Tag) : Render (Table Value) :=
  t.childTags.foldlM (addParameter e inner view) []

/-- Add the value of an attribute as an expression. -/
def addArgument (place : Place) (done : Table Value) : String × String → Render (Table Value)
  | (key, raw) => do
    let v ← evaluateAttribute e place raw
    return Table.put key v done

/-- The values of the attributes of a tag as expressions. -/
def arguments (t : Tag) : Render (Table Value) :=
  t.attributes.foldlM (addArgument e (t.place view)) []

-- ---------------------------------------------------------------------------
-- Attributes
-- ---------------------------------------------------------------------------

/-- Add a piece of an attribute value; a run is the text of an expression, escaped. -/
def addPiece (place : Place) (done : List (List Char)) : Piece → Render (List (List Char))
  | .literal text => return text :: done
  | .run expression => do
    let v ← evaluateAttribute e place (String.ofList expression)
    let text ← textOf place v
    return (Text.escapeHtml text).toList :: done

/-- Replace the runs of an attribute value, from left to right. -/
def interpolate (place : Place) (raw : String) : Render String := do
  let parts ← (Piece.ofAttribute raw).foldlM (addPiece e place) []
  return String.ofList parts.reverse.flatten

/-- Add an attribute with its runs replaced. -/
def addPlain (place : Place) (done : Table String) : String × String → Render (Table String)
  | (name, raw) => do
    let text ← interpolate e place raw
    return Table.put name text done

/-- Add the attribute that a child sets, if it is one and is there: the text of its value, of its
text directive, or its content. -/
def addSet (done : Table String) (child : Tag) : Render (Table String) :=
  match child.kind with
  | .attr name value => do
    let isThere ← condition e view child
    if isThere then
      match value.or child.directives.text with
      | some d =>
        let text ← evaluateText e (child.place view) d.expr
        return Table.put name text done
      | none =>
        let text ← content inner view child
        return Table.put name text done
    else return done
  | _ => return done

/-- The attributes that a tag is written with. Those set by children come last and take the place
of an attribute of the same name. -/
def attributes (t : Tag) : Render (Table String) := do
  let plain ← t.attributes.foldlM (addPlain e (t.place view)) []
  t.childTags.foldlM (addSet e inner view) plain

end Render

end XmlTemplate
