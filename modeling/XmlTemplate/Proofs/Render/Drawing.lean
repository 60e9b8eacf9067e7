import XmlTemplate.Proofs.Render.Step
import XmlTemplate.Proofs.Slot.Layout
import XmlTemplate.Render.Page

/-!
# Drawing pages as trees

A renderer that draws pages as trees of slots instead of texts with marks. It goes along with a
render step by step and on the same session, but its output is put together from the tree and from
the outputs of plugs in their order; it never looks for a mark.

There is no tree where a slot ends up in a plain text, such as a parameter, an attribute, a
translation or the output of another plug, and none where a slot is within a slot of its name.
-/

namespace XmlTemplate

namespace Slot

/-- The output of a tag that is kept for a slot. -/
structure Plugging where
  name : String
  output : String
  /-- It is added to what the slot is plugged with before. -/
  append : Bool
  deriving Repr, DecidableEq

/-- Outputs for one slot, the latest first, back to the last one that is not added. -/
def current : List Plugging → List Plugging
  | [] => []
  | p :: earlier => if p.append then p :: current earlier else [p]

/-- What a slot is plugged with by outputs, the latest first: the current ones in their order. -/
def plugged? (name : String) (pluggings : List Plugging) : Option String :=
  match pluggings.filter (·.name == name) with
  | [] => none
  | own => some (String.join ((current own).reverse.map (·.output)))

theorem plugged?_cons_of_ne {name : String} {p : Plugging} (h : p.name ≠ name)
    (pluggings : List Plugging) : plugged? name (p :: pluggings) = plugged? name pluggings := by
  rw [plugged?, List.filter_cons_of_neg (by simpa using h), plugged?]

theorem plugged?_cons_self (p : Plugging) (pluggings : List Plugging) :
    plugged? p.name (p :: pluggings) =
      some ((if p.append then (plugged? p.name pluggings).getD "" else "") ++ p.output) := by
  rw [plugged?, List.filter_cons_of_pos (by simp)]
  simp only [current, plugged?]
  cases p.append with
  | false => simp [String.join]
  | true =>
    cases pluggings.filter (·.name == p.name) with
    | nil => simp [current, String.join]
    | cons q earlier => simp [String.join, List.foldl_append]

/-- Why there is no tree for a page. -/
inductive Misplaced where
  /-- There is a slot in what is used as a plain text. -/
  | asText
  /-- There is a slot within a slot of its name. -/
  | nested (name : String)
  deriving Repr, DecidableEq

end Slot

open Slot (Layout Plugging Misplaced)

/-- A step of drawing, with the outputs of plugs so far, the latest first. -/
abbrev Draw := StateT (List Plugging) (ExceptT Misplaced Render)

/-- Draws a tag of a view. -/
abbrev Drawer := Tag → Nat → Suppressed → Draw (Option Layout)

namespace Draw

variable (e : Engine) (inner : Drawer) (view : Nat)

/-- A page as a plain text. -/
def plain (l : Layout) : Draw String :=
  match l.text? with
  | some text => return text
  | none => throw .asText

/-! ## Content and parameters -/

def addNode (done : Layout) : Node Tag → Draw Layout
  | .text text => return done.append (.ofText text)
  | .child child =>
    if child.kind.belongsToParent then return done
    else do
      let fragment ← inner child view .none
      return done.append (fragment.getD .nil)

def content (t : Tag) : Draw Layout := t.children.foldlM (addNode inner view) .nil

def plainContent (t : Tag) : Draw String := do
  let l ← content inner view t
  plain l

def addParameter (done : Table Value) (child : Tag) : Draw (Table Value) :=
  match child.kind with
  | .param name value => do
    let isThere ← Render.condition e view child
    if isThere then
      match value with
      | some d =>
        let v ← Render.evaluate e (child.place view) d.expr
        return Table.put name v done
      | none =>
        let text ← plainContent inner view child
        return Table.put name (.string (Render.oneLine text)) done
    else return done
  | _ => return done

def parameters (t : Tag) : Draw (Table Value) :=
  t.childTags.foldlM (addParameter e inner view) []

def addSet (done : Table String) (child : Tag) : Draw (Table String) :=
  match child.kind with
  | .attr name value => do
    let isThere ← Render.condition e view child
    if isThere then
      match value.or child.directives.text with
      | some d =>
        let text ← Render.evaluateText e (child.place view) d.expr
        return Table.put name text done
      | none =>
        let text ← plainContent inner view child
        return Table.put name text done
    else return done
  | _ => return done

def attributes (t : Tag) : Draw (Table String) := do
  let plain ← (t.attributes.foldlM (Render.addPlain e (t.place view)) [] : Render (Table String))
  t.childTags.foldlM (addSet e inner view) plain

/-! ## Translations -/

def fillPlaceholders (t : Tag) (text : String) : Draw String := do
  let pieces := Piece.ofTranslation text
  if pieces.any Piece.isRun then
    let parameters ← parameters e inner view t
    let known ← (pieces.foldlM (Render.addPlaceholder e view t parameters) [] :
      Render (Table String))
    return String.ofList (pieces.flatMap (Render.filled known))
  else return text

def finish (t : Tag) (key text : String) : Draw String := do
  let text ← fillPlaceholders e inner view t text
  if text == "" then
    Render.warnAt (t.place view) fun location => .emptyTranslation location key
    return key
  else return text

/-- Finish a translation by its key. -/
def translated (t : Tag) (dict : Option String) (key : String) : Draw String := do
  match (← getThe Session).views.translate view key dict with
  | .found text => finish e inner view t key text
  | .missingEntry =>
    Render.warnAt (t.place view) fun location => .missingEntry location key
    return key
  | .missingDictionary =>
    Render.failAt (t.place view) fun location => .unknownDictionary location (dict.getD "")

def trans (t : Tag) (key dict source : Option String) : Draw String := do
  let s ← getThe Session
  if source == s.language then
    let text ← plainContent inner view t
    finish e inner view t (key.getD "") text
  else
    match key with
    | some key => translated e inner view t dict key
    | none =>
      let key ← plainContent inner view t
      translated e inner view t dict key

/-! ## Kinds of tags -/

/-- The content of an element, filtered. -/
def filtered (t : Tag) (l : Layout) : Draw Layout :=
  match t.directives.filter with
  | some name => do
    let text ← plain l
    let text ← Render.filter e (t.place view) name text
    return .ofText text
  | none => return l

def body (t : Tag) : Draw Layout :=
  match t.directives.text with
  | some d => do
    let text ← Render.evaluateText e (t.place view) d.expr
    filtered e view t (.ofText text)
  | none => do
    let l ← content inner view t
    filtered e view t l

def elementEnd (t : Tag) (l : Layout) : Draw Layout := do
  let isVoid ← Render.flag e (t.place view) t.directives.void
  if isVoid then return .ofText ">"
  else if l.isEmpty then
    let rest ← Render.emptyEnd e view t
    return .ofText rest
  else return (Layout.ofText ">").append (l.append (.ofText ("</" ++ t.name ++ ">")))

/-- An element that is not mute. -/
def shownElement (t : Tag) : Draw Layout := do
  let attributes ← attributes e inner view t
  let l ← body e inner view t
  let rest ← elementEnd e view t l
  return (Layout.ofText (Render.opening t.name attributes)).append rest

def element (t : Tag) : Draw Layout :=
  match t.kind with
  | .control => body e inner view t
  | _ => do
    let isMute ← Render.flag e (t.place view) t.directives.mute
    if isMute then body e inner view t else shownElement e inner view t

def inclusion (t : Tag) (file : String) : Draw Layout := do
  let s ← getThe Session
  let compiled ← Render.consult (t.place view) (e.load (Path.resolve (s.views.path view) file))
  let s ← getThe Session
  set (s.addView compiled.template (some view))
  let l ← inner compiled.template.root s.views.length .none
  return l.getD .nil

def mount (t : Tag) (target : String) (value : Option Directive) : Draw Unit := do
  match value with
  | some d =>
    let v ← Render.evaluate e (t.place view) d.expr
    modifyThe Session (Session.mount target v)
  | none =>
    let text ← plainContent inner view t
    modifyThe Session (Session.mount target (.string text))

def kind (t : Tag) : Draw Layout :=
  match t.kind with
  | .element | .control => element e inner view t
  | .inclusion file => inclusion e inner view t file
  | .verbatim file => do
    let text ← Render.verbatim e view t file
    return .ofText text
  | .attr .. | .param .. => return .nil
  | .feed feedClass target => do
    Render.feed e view t feedClass target
    return .nil
  | .dictionary file name source => do
    Render.dictionary e view t file name source
    return .nil
  | .mount target value => do
    mount e inner view t target value
    return .nil
  | .trans key dict source => do
    let text ← trans e inner view t key dict source
    return .ofText text

/-! ## Directives -/

/-- The page of a walk after one more item. -/
def joined (t : Tag) (done fragment : Layout) : Layout :=
  if fragment.isEmpty then done
  else if done.isEmpty then fragment
  else (done.append (.ofText (t.indent.getD ""))).append fragment

def addItem (t : Tag) (suppressed : Suppressed) (done : Layout) (item : Value × Value) :
    Draw Layout := do
  modifyThe Session (Session.enterItem item)
  let fragment ← inner t view suppressed
  modifyThe Session Session.leaveFrame
  return joined t done (fragment.getD .nil)

def walk (t : Tag) (d : Directive) (suppressed : Suppressed) : Draw Layout := do
  let v ← Render.evaluate e (t.place view) d.expr
  let items := Render.items v
  modifyThe Session (Session.startWalk items.length)
  let l ← items.foldlM (addItem inner view t { suppressed with walk := true }) .nil
  modifyThe Session Session.outside
  return l

def macroBody (arguments : Table Value) (body : MacroBody) : Draw Layout := do
  let s ← getThe Session
  match (s.views[body.view]?).bind fun v => v.template.find? body.tag with
  | none => return .nil
  | some t =>
    set (s.enterMacro arguments)
    let l ← inner t body.view ⟨false, true⟩
    modifyThe Session (Session.leaveMacro s)
    return l.getD .nil

def callMacro (t : Tag) (name : String) : Draw Layout := do
  let arguments ← Render.arguments e view t
  let parameters ← parameters e inner view t
  let all := parameters.foldl (fun done (key, v) => Table.put key v done) arguments
  match (← getThe Session).macros.get? name with
  | some body => macroBody inner all body
  | none =>
    Render.warnAt (t.place view) fun location => .unknownMacro location name
    return .nil

/-- A tag as the content of a slot. -/
def slot (t : Tag) (name : String) : Draw Layout := do
  modifyThe Session (Session.recordSlot name)
  let l ← kind e inner view t
  if l.count name = 0 then return .slot name l .nil else throw (.nested name)

/-- Keep the output of a tag for a slot. -/
def plug (t : Tag) (name : String) : Draw Unit := do
  let l ← kind e inner view t
  let output ← plain l
  let append ← Render.flag e (t.place view) t.directives.append
  modifyThe Session (Session.plug name output append)
  modify (⟨name, output, append⟩ :: ·)

def shown (t : Tag) : Draw (Option Layout) :=
  match t.directives.call, t.directives.slot, t.directives.plug with
  | some name, _, _ => some <$> callMacro e inner view t name
  | none, some name, _ => some <$> slot e inner view t name
  | none, none, some name => do
    plug e inner view t name
    return none
  | none, none, none => some <$> kind e inner view t

def single (t : Tag) (suppressed : Suppressed) : Draw (Option Layout) := do
  let isThere ← Render.condition e view t
  if isThere then
    match t.directives.macroName, suppressed.definition with
    | some name, false =>
      modifyThe Session (Session.defineMacro name ⟨view, t.id⟩)
      return some .nil
    | _, _ => shown e inner view t
  else return none

def tagStep : Drawer := fun t view suppressed =>
  match t.directives.walk, suppressed.walk with
  | some d, false => some <$> walk e inner view t d suppressed
  | _, _ => single e inner view t suppressed

/-- Draw a tag whose renderings within each other are at most `depth` deep. -/
def tag : (depth : Nat) → Drawer
  | 0 => fun _ _ _ => (throw .depth : Render (Option Layout))
  | depth + 1 => tagStep e (tag depth)

/-! ## Pages -/

/-- Draw a template as the first view of a session. -/
def page (depth : Nat) (template : Template) : Draw Layout := do
  modifyThe Session (Session.addView template none)
  let l ← tag e depth template.root 0 .none
  return l.getD .nil

end Draw

/-- What comes of drawing a page. -/
structure Drawing where
  instructions : List String
  layout : Layout
  /-- The outputs of plugs, the latest first. -/
  pluggings : List Plugging
  /-- Names of the slots met, one for each occurrence. -/
  slots : List String
  warnings : List Fault

namespace Drawing

/-- What a slot is plugged with in the end. -/
def plug (d : Drawing) (name : String) : Option String := Slot.plugged? name d.pluggings

/-- The page with all slots that have a plug replaced, behind the processing instructions. -/
def output (d : Drawing) : String :=
  String.join (d.instructions.map (· ++ "\n")) ++ d.layout.output d.plug

/-- No text of the page, of a plug or put together from both spells a mark of a slot. -/
def Unforged (d : Drawing) : Prop :=
  Slot.Marked.Unforged (Layout.markedPlugs d.plug) d.slots d.layout.marked

end Drawing

/-- Draw a compiled template down to a depth. -/
def Engine.drawWithin (e : Engine) (depth : Nat) (template : Template) (data : Value)
    (language : Option String) (m : Memory) : Except Stop (Except Misplaced Drawing) × Memory :=
  match Draw.page e depth template [] (Session.start data (language.or e.language)) m with
  | (.ok (.ok (layout, pluggings), s), m) =>
    (.ok (.ok ⟨template.instructions, layout, pluggings, s.slots, s.warnings⟩), m)
  | (.ok (.error misplaced, _), m) => (.ok (.error misplaced), m)
  | (.error stop, m) => (.error stop, m)

end XmlTemplate
