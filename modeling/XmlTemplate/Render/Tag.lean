import XmlTemplate.Render.Trans
import XmlTemplate.Render.Slot

/-!
# Rendering tags

The directives of a tag apply in a fixed order: walk, condition, definition of a macro, call of a
macro, slot, then the tag itself by its kind, and then plug. `tagStep` does this with a given
renderer for all tags within; `tag` closes the circle, down to a depth.
-/

namespace XmlTemplate.Render

variable (e : Engine) (inner : Renderer) (view : Nat)

-- ---------------------------------------------------------------------------
-- Kinds of tags
-- ---------------------------------------------------------------------------

/-- Apply the filter of a name. -/
def filter (place : Place) (name text : String) : Render String :=
  match e.filter? name with
  | some f => return f text
  | none => failAt place fun location => .unknownFilter location name

/-- What stands between the tags of an element. -/
def body (t : Tag) : Render String := do
  let text ← match t.directives.text with
    | some d => evaluateText e (t.place view) d.expr
    | none => content inner view t
  match t.directives.filter with
  | some name => filter e (t.place view) name text
  | none => return text

/-- The start of an opening tag: its name and its attributes. -/
def opening (name : String) (attributes : Table String) : String :=
  "<" ++ name ++ String.join (attributes.map fun (key, text) => " " ++ key ++ "=\"" ++ text ++ "\"")

/-- What follows the attributes of an element without content. -/
def emptyEnd (t : Tag) : Render String := do
  let isClosed ← if t.selfClosing then pure true else flag e (t.place view) t.directives.auto
  if isClosed then return " />" else return "></" ++ t.name ++ ">"

/-- What follows the attributes of an element. A void element has no content and no closing tag. -/
def elementEnd (t : Tag) (text : String) : Render String := do
  let isVoid ← flag e (t.place view) t.directives.void
  if isVoid then return ">"
  else if text == "" then emptyEnd e view t
  else return ">" ++ text ++ "</" ++ t.name ++ ">"

/-- An element, or only its content if it is mute. -/
def element (t : Tag) : Render String := do
  let isMute ← match t.kind with
    | .control => pure true
    | _ => flag e (t.place view) t.directives.mute
  if isMute then body e inner view t
  else
    let attributes ← attributes e inner view t
    let text ← body e inner view t
    let rest ← elementEnd e view t text
    return opening t.name attributes ++ rest

/-- Another template in place of a tag. -/
def inclusion (t : Tag) (file : String) : Render String := do
  let s ← get
  let compiled ← consult (t.place view) (e.load (Path.resolve (s.views.path view) file))
  let s ← get
  set (s.addView compiled.template (some view))
  let output ← inner compiled.template.root s.views.length .none
  return output.getD ""

/-- The text of a file in place of a tag. -/
def verbatim (t : Tag) (file : String) : Render String := do
  let s ← get
  let path := Path.resolve (s.views.path view) file
  let revision ← consult (t.place view) fun m => (e.source.read m.files path, m)
  return revision.text

/-- The first factory that makes a feed, by its position, and the feed. -/
def firstFeed? (feedClass : String) (parameters : Table Value) :
    List FeedFactory → Option (Nat × Feed)
  | [] => none
  | factory :: rest =>
    match factory feedClass parameters with
    | some feed => some (0, feed)
    | none => (firstFeed? feedClass parameters rest).map fun (i, feed) => (i + 1, feed)

/-- The feed of a class: from the factory that made the first one of the class, if there was one. -/
def findFeed (place : Place) (feedClass : String) (parameters : Table Value) : Render Feed := do
  let s ← get
  match s.feedClasses.get? feedClass with
  | some i =>
    match (e.feeds[i]?).bind fun factory => factory feedClass parameters with
    | some feed => return feed
    | none => failAt place fun location => .unknownFeed location feedClass
  | none =>
    match firstFeed? feedClass parameters e.feeds with
    | some (i, feed) =>
      set { s with feedClasses := s.feedClasses.put feedClass i }
      return feed
    | none => failAt place fun location => .unknownFeed location feedClass

/-- Run a feed on the attributes of a tag and mount what it makes. -/
def feed (t : Tag) (feedClass : String) (target : Option String) : Render Unit := do
  let parameters ← arguments e view t
  let feed ← findFeed e (t.place view) feedClass parameters
  match feed parameters, target with
  | .ok v, some target => modify (Session.mount target v)
  | .ok _, none => return
  | .error message, _ =>
    failAt (t.place view) fun location => .feed location feedClass message

/-- Attach a dictionary in the language of the render, unless the template is in that language. -/
def dictionary (t : Tag) (file : String) (name source : Option String) : Render Unit := do
  let s ← get
  match s.language with
  | none => return
  | some language =>
    if source == some language then return
    else
      let d ← consult (t.place view) (e.loadDictionary language file)
      d.duplicates.forM fun key => modify (Session.warn (.duplicateKey d.file key))
      modify fun s => { s with views := s.views.attach name d view }

/-- Mount a value, or else the content of the tag. -/
def mount (t : Tag) (target : String) (value : Option Directive) : Render Unit := do
  match value with
  | some d =>
    let v ← evaluate e (t.place view) d.expr
    modify (Session.mount target v)
  | none =>
    let text ← content inner view t
    modify (Session.mount target (.string text))

/-- A tag by its kind, without its directives of order. -/
def kind (t : Tag) : Render String :=
  match t.kind with
  | .element | .control => element e inner view t
  | .inclusion file => inclusion e inner view t file
  | .verbatim file => verbatim e view t file
  | .attr .. | .param .. => return ""
  | .feed feedClass target => do
    feed e view t feedClass target
    return ""
  | .dictionary file name source => do
    dictionary e view t file name source
    return ""
  | .mount target value => do
    mount e inner view t target value
    return ""
  | .trans key dict source => trans e inner view t key dict source

-- ---------------------------------------------------------------------------
-- Directives
-- ---------------------------------------------------------------------------

/-- The items that a walk goes over, with their keys. A value that is no collection is one item. -/
def items : Value → List (Value × Value)
  | .null => []
  | .array values => values.mapIdx fun i v => (.ofNat i, v)
  | .object fields => fields.map fun (key, v) => (.string key, v)
  | v => [(.int 0, v)]

/-- Render a tag for an item, which is a frame of its own, and add the output. The indent of the tag
separates outputs that are not empty. -/
def addItem (t : Tag) (suppressed : Suppressed) (done : String) (item : Value × Value) :
    Render String := do
  modify fun s => { s with
    frames := item.2 :: s.frames
    iterations := s.iterations.modifyHead (Iteration.advance item.1) }
  let fragment ← inner t view suppressed
  modify fun s => { s with frames := s.frames.tail }
  let fragment := fragment.getD ""
  if fragment == "" then return done
  else if done == "" then return fragment
  else return done ++ t.indent.getD "" ++ fragment

/-- Render a tag for each item of a value. -/
def walk (t : Tag) (d : Directive) (suppressed : Suppressed) : Render String := do
  let v ← evaluate e (t.place view) d.expr
  let items := items v
  modify fun s => { s with iterations := .start items.length :: s.iterations }
  let output ← items.foldlM (addItem inner view t { suppressed with walk := true }) ""
  modify fun s => { s with iterations := s.iterations.tail }
  return output

/-- Render the body of a macro in a frame of arguments. It does not see the walks of its caller. -/
def macroBody (arguments : Table Value) (body : MacroBody) : Render String := do
  let s ← get
  match (s.views[body.view]?).bind fun v => v.template.find? body.tag with
  | none => return ""
  | some t =>
    set { s with frames := .object arguments :: s.frames, iterations := [] }
    let output ← inner t body.view ⟨false, true⟩
    modify fun after => { after with frames := after.frames.tail, iterations := s.iterations }
    return output.getD ""

/-- Call a macro with the attributes and parameters of a tag. -/
def callMacro (t : Tag) (name : String) : Render String := do
  let arguments ← arguments e view t
  let parameters ← parameters e inner view t
  let all := parameters.foldl (fun done (key, v) => Table.put key v done) arguments
  match (← get).macros.get? name with
  | some body => macroBody inner all body
  | none =>
    warnAt (t.place view) fun location => .unknownMacro location name
    return ""

/-- A tag within the marks of a slot. -/
def slot (t : Tag) (name : String) : Render String := do
  modify (Session.recordSlot name)
  let output ← kind e inner view t
  return Slot.opening name ++ output ++ Slot.closing name

/-- Keep the output of a tag for a slot. -/
def plug (t : Tag) (name : String) : Render Unit := do
  let output ← kind e inner view t
  let append ← flag e (t.place view) t.directives.append
  modify (Session.plug name output append)

/-- A tag after its condition holds and without its macro. -/
def shown (t : Tag) : Render (Option String) :=
  match t.directives.call, t.directives.slot, t.directives.plug with
  | some name, _, _ => some <$> callMacro e inner view t name
  | none, some name, _ => some <$> slot e inner view t name
  | none, none, some name => do
    plug e inner view t name
    return none
  | none, none, none => some <$> kind e inner view t

/-- A tag that is not walked: nothing if its condition fails; if it defines a macro, only that. -/
def single (t : Tag) (suppressed : Suppressed) : Render (Option String) := do
  let isThere ← condition e view t
  if isThere then
    match t.directives.macroName, suppressed.definition with
    | some name, false =>
      modify (Session.defineMacro name ⟨view, t.id⟩)
      return some ""
    | _, _ => shown e inner view t
  else return none

end XmlTemplate.Render

namespace XmlTemplate

/-- Render a tag, with a renderer for the tags within. -/
def Render.tagStep (e : Engine) (inner : Renderer) : Renderer := fun t view suppressed =>
  match t.directives.walk, suppressed.walk with
  | some d, false => some <$> Render.walk e inner view t d suppressed
  | _, _ => Render.single e inner view t suppressed

/-- Render a tag whose renderings within each other are at most `depth` deep. -/
def Render.tag (e : Engine) : (depth : Nat) → Renderer
  | 0 => fun _ _ _ => throw .depth
  | depth + 1 => Render.tagStep e (Render.tag e depth)

end XmlTemplate
