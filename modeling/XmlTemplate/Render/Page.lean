import XmlTemplate.Render.Tag

/-!
# Pages

Rendering a compiled template with data, and evaluating an expression on its own. Both run in a
session of their own; what remains of it are the output and the warnings.
-/

namespace XmlTemplate

/-- The result of a render. -/
structure Rendered where
  output : String
  /-- Problems that did not stop the render, in order. -/
  warnings : List Fault

namespace Render

/-- Render a template as the first view of a session. Processing instructions come before the
page, each on a line of its own. -/
def page (e : Engine) (depth : Nat) (template : Template) : Render String := do
  modify (Session.addView template none)
  let output ← tag e depth template.root 0 .none
  let s ← get
  let instructions := String.join (template.instructions.map (· ++ "\n"))
  return instructions ++ Slot.splice s.slots s.plugs (output.getD "")

end Render

namespace Engine

/-- How deeply renderings of tags may be within each other. -/
def depthLimit : Nat := 4096

/-- Render a compiled template down to a depth. The language of the engine stands in for none. -/
def renderWithin (e : Engine) (depth : Nat) (template : Template) (data : Value)
    (language : Option String) (m : Memory) : Except Stop Rendered × Memory :=
  let session := Session.start data (language.or e.language)
  match (Render.page e depth template).run session m with
  | (.ok (output, s), m) => (.ok ⟨output, s.warnings⟩, m)
  | (.error stop, m) => (.error stop, m)

/-- Render a compiled template. -/
def render (e : Engine) : Template → Value → Option String → Memory →
    Except Stop Rendered × Memory :=
  e.renderWithin depthLimit

/-- Load and render a template by path. -/
def renderFile (e : Engine) (path : String) (data : Value) (language : Option String)
    (m : Memory) : Except Stop Rendered × Memory :=
  match e.load path m with
  | (.error fault, m) => (.error (.fault fault), m)
  | (.ok compiled, m) => e.render compiled.template data language m

/-- Evaluate an expression on data, outside of any template. -/
def evaluate (e : Engine) (source : String) (data : Value) (m : Memory) :
    Except Stop Value × Memory :=
  match Expr.parse source with
  | .error problem => (.error (.fault (.syntaxError ⟨"", 0⟩ source problem)), m)
  | .ok expr =>
    match (Render.evaluate e ⟨0, 1⟩ expr).run (Session.start data e.language) m with
    | (.ok (v, _), m) => (.ok v, m)
    | (.error stop, m) => (.error stop, m)

end Engine

end XmlTemplate
