import XmlTemplate.Engine
import XmlTemplate.Expr.Evaluation
import XmlTemplate.Render.View

/-!
# Sessions

A session is the state of one render. All templates that take part share it: the frames of data,
the walks under way, and the macros, slots and plugs met so far. A step of a render changes the
session and may stop; what the engine remembers stays even then.

Functions are looked up once for each name. The first feed of a class decides which factory makes
all feeds of that class.
-/

namespace XmlTemplate

/-- The place of a tag that defines a macro. -/
structure MacroBody where
  view : Nat
  tag : Nat
  deriving Repr, DecidableEq

/-- The state of a render. -/
structure Session where
  language : Option String
  /-- The data of the render. -/
  root : Value
  /-- Frames of data on top of the root, the innermost first. -/
  frames : List Value
  views : Views
  /-- The walks under way, the innermost first. -/
  iterations : List Iteration
  macros : Table MacroBody
  /-- Names of the slots met, one for each occurrence. -/
  slots : List String
  plugs : Table String
  /-- Functions used so far. -/
  functions : Table Function
  /-- The position of the factory that makes the feeds of a class. -/
  feedClasses : Table Nat
  /-- Problems that did not stop the render. -/
  warnings : List Fault
  /-- Number of calls of functions so far. -/
  calls : Nat

namespace Session

/-- A session on data. Null counts as an object without fields. -/
def start (data : Value) (language : Option String) : Session :=
  let root := match data with
    | .null => .object []
    | data => data
  { language := language, root := root, frames := [], views := [], iterations := [], macros := [],
    slots := [], plugs := [], functions := [], feedClasses := [], warnings := [], calls := 0 }

-- ---------------------------------------------------------------------------
-- Data
-- ---------------------------------------------------------------------------

/-- The part of a frame that a path can start with. -/
def field? (key : String) : Value → Option Value
  | .object fields => Table.get? key fields
  | .host _ _ properties _ => Table.get? key properties
  | _ => none

/-- The value that a path starts with: a frame, or a part of the innermost frame that has it. -/
def lookup (key : String) (s : Session) : Value :=
  let scopes := s.frames ++ [s.root]
  if key = "/" then s.root
  else if key = "." then (scopes[0]?).getD .null
  else if key = ".." then (scopes[1]?).getD .null
  else (scopes.findSome? (field? key)).getD .null

/-- Put a value under a key of the root. A root that is no object is given up. -/
def mount (key : String) (v : Value) (s : Session) : Session :=
  match s.root with
  | .object fields => { s with root := .object (Table.put key v fields) }
  | _ => { s with root := .object [(key, v)] }

-- ---------------------------------------------------------------------------
-- Records
-- ---------------------------------------------------------------------------

def warn (f : Fault) (s : Session) : Session := { s with warnings := s.warnings ++ [f] }

/-- Add a view at the end of all views. -/
def addView (template : Template) (parent : Option Nat) (s : Session) : Session :=
  { s with views := s.views ++ [⟨template, parent, []⟩] }

def defineMacro (name : String) (body : MacroBody) (s : Session) : Session :=
  { s with macros := s.macros.put name body }

def recordSlot (name : String) (s : Session) : Session := { s with slots := s.slots ++ [name] }

/-- Set the content for a slot, or add to what is there. -/
def plug (name content : String) (append : Bool) (s : Session) : Session :=
  let old := if append then (s.plugs.get? name).getD "" else ""
  { s with plugs := s.plugs.put name (old ++ content) }

/-- The walk that an expression sees. -/
def iteration (s : Session) : Iteration := (s.iterations.head?).getD (.start 0)

/-- The place of a line of a view. -/
def location (view line : Nat) (s : Session) : Location := ⟨s.views.path view, line⟩

end Session

-- ---------------------------------------------------------------------------
-- Steps
-- ---------------------------------------------------------------------------

/-- A step of a render. -/
abbrev Render := StateT Session (ExceptT Stop (StateM Memory))

/-- A line of a view, where a step takes place. -/
structure Place where
  view : Nat
  line : Nat
  deriving Repr, DecidableEq

namespace Render

theorem pure_apply (a : α) (s : Session) (m : Memory) :
    (pure a : Render α) s m = (.ok (a, s), m) := rfl

/-- The second of two steps starts from the session and the memory that the first one leaves. -/
theorem bind_apply (x : Render α) (f : α → Render β) (s : Session) (m : Memory) :
    (x >>= f) s m = match x s m with
      | (.ok (a, s), m) => f a s m
      | (.error stop, m) => (.error stop, m) := by
  simp only [bind, StateT.bind, ExceptT.bind, ExceptT.mk]
  rcases x s m with ⟨_ | ⟨a, s⟩, m⟩ <;> rfl

/-- Stop with a fault. -/
def fail (f : Fault) : Render α := throw (.fault f)

/-- Stop with a fault at a place. -/
def failAt (place : Place) (f : Location → Fault) : Render α := do
  let s ← get
  fail (f (s.location place.view place.line))

/-- Go on after a problem at a place. -/
def warnAt (place : Place) (f : Location → Fault) : Render Unit :=
  modify fun s => s.warn (f (s.location place.view place.line))

/-- Use what the engine remembers. A missing source is missed at the place. -/
def consult (place : Place) (use : Memory → Except Fault α × Memory) : Render α := do
  let s ← get
  let m ← getThe Memory
  let (result, m) := use m
  set m
  match result with
  | .ok a => return a
  | .error f => fail (f.locate (s.location place.view place.line))

/-- The text of a value, which must have one. -/
def textOf (place : Place) (v : Value) : Render String :=
  match v.text? with
  | some text => return text
  | none => failAt place .noText

-- ---------------------------------------------------------------------------
-- Expressions
-- ---------------------------------------------------------------------------

variable (e : Engine)

/-- The function that a name stands for, looked up at its first use. -/
def function (place : Place) (name : String) : Render Function := do
  let s ← get
  match s.functions.get? name with
  | some f => return f
  | none =>
    match e.function? name with
    | some f =>
      set { s with functions := s.functions.put name f }
      return f
    | none => failAt place fun location => .unknownFunction location name

/-- Call a function. -/
def call (place : Place) (name : String) (args : List Value) : Render Value := do
  let f ← function e place name
  let s ← get
  set { s with calls := s.calls + 1 }
  let anchor : Anchor :=
    { location := s.location place.view place.line, iteration := s.iteration,
      language := s.language, constants := e.constants, now := e.now, serial := s.calls }
  match f anchor args with
  | .ok v => return v
  | .error stop => throw stop

/-- What expressions see at a place. -/
def environment (place : Place) : Environment Render :=
  { lookup := fun key => return (← get).lookup key
    call := call e place
    noText := failAt place .noText }

/-- The value of an expression at a place. -/
def evaluate (place : Place) (expr : Expr) : Render Value :=
  expr.evaluate (environment e place)

/-- The expression of a text, parsed at its first use. -/
def parse (place : Place) (source : String) : Render Expr := do
  let m ← getThe Memory
  match m.parsed.get? source with
  | some expr => return expr
  | none =>
    match Expr.parse source with
    | .ok expr =>
      set { m with parsed := m.parsed.put source expr }
      return expr
    | .error problem => failAt place fun location => .syntaxError location source problem

/-- The value of the expression in an attribute, as it is written there. -/
def evaluateAttribute (place : Place) (raw : String) : Render Value := do
  let expr ← parse place (Text.unescape raw)
  evaluate e place expr

/-- The text of the value of an expression. -/
def evaluateText (place : Place) (expr : Expr) : Render String := do
  let v ← evaluate e place expr
  textOf place v

/-- A directive that is not there is false. -/
def flag (place : Place) (d : Option Directive) : Render Bool := do
  match d with
  | some d =>
    let v ← evaluate e place d.expr
    return v.isTruthy
  | none => return false

end Render

end XmlTemplate
