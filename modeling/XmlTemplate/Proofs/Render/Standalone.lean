import XmlTemplate.Proofs.Markup.Single
import XmlTemplate.Proofs.Render.Depth
import XmlTemplate.Proofs.Render.Simulation
import XmlTemplate.Proofs.Text.Entity

/-!
# Expressions in templates and on their own

A page of a single tag may hold no more than the text of an expression. Rendering it comes to the
text of the value that the expression has outside of all templates, whatever characters it is
written with, and fails where the expression alone fails.
-/

namespace XmlTemplate

/-- A page that stands for the text of an expression. -/
def expressionPage (source : String) : String :=
  "<fig:x fig:text=\"" ++ Text.escapeHtml source ++ "\"/>"

/-- What the page of an expression is read as. -/
def expressionElement (source : String) : Element :=
  ⟨"fig:x", [("fig:text", Text.escapeHtml source)], 1, true, []⟩

/-- What the page of an expression is compiled to. -/
def expressionTemplate (path source : String) (expr : Expr) : Template :=
  { path := path
    lead := "fig:"
    root :=
      { id := 0, name := "fig:x", line := 1, kind := .control, attributes := []
        directives := { Directives.none with text := some ⟨source, expr⟩ }
        children := [], selfClosing := true, indent := none }
    instructions := [] }

/-- A collection with content. -/
def Value.IsFull (v : Value) : Prop :=
  (∃ item items, v = .array (item :: items)) ∨ ∃ field fields, v = .object (field :: fields)

theorem Value.text?_eq_none_iff {v : Value} : v.text? = none ↔ v.IsFull := by
  unfold IsFull
  cases v with
  | array items => cases items <;> simp [text?]
  | object fields => cases fields <;> simp [text?]
  | _ => simp [text?]

-- ---------------------------------------------------------------------------
-- Compiling
-- ---------------------------------------------------------------------------

theorem markup_expressionElement (source : String) :
    (expressionElement source).markup = expressionPage source := by
  unfold expressionElement expressionPage
  rw [Element.markup_single, List.map_cons, List.map_nil, String.join_cons, String.join_nil,
    String.append_empty, Element.attributeMarkup]
  apply String.toList_inj.1
  simp

theorem read_expressionPage (source : String) :
    Document.read (expressionPage source) = .ok ⟨expressionElement source, []⟩ := by
  rw [← markup_expressionElement]
  have hname : Markup.IsPlainName "fig:x".toList := by decide
  have hkey : Markup.IsPlainName "fig:text".toList := by decide
  refine Document.read_single hname (fun p hp => ?_) (by simp)
  cases List.mem_singleton.1 hp
  exact ⟨hkey, Text.quote_notMem_escapeHtml source⟩

namespace Compile

variable (path source : String)

theorem directives_text (s : Setting) (line : Nat) : directives s line [("text", source)] =
    (directive s line source).map fun d => { Directives.none with text := some d } := by
  unfold directive
  simp only [directives, List.foldlM_cons, List.foldlM_nil, addDirective, directive]
  cases Expr.parse source with
  | ok expr => rfl
  | error problem => rfl

/-- The element of an expression compiles just if the expression is one. -/
theorem element_expressionElement :
    element ⟨path, "fig:", none⟩ 0 none (expressionElement source) =
      (directive ⟨path, "fig:", none⟩ 1 source).map fun d =>
        (⟨0, "fig:x", 1, .control, [], { Directives.none with text := some d }, [], true, none⟩,
          1) := by
  have hname : afterLead? "fig:" "fig:x" = some "x" := by decide
  have hkey : afterLead? "fig:" "fig:text" = some "text" := by decide
  have hcontrol : controlAttributes ⟨path, "fig:", none⟩ [("fig:text", Text.escapeHtml source)] =
      [("text", source)] := by
    simp [controlAttributes, hkey, Text.unescape_escapeHtml]
  have hplain : plainAttributes ⟨path, "fig:", none⟩ [("fig:text", Text.escapeHtml source)] =
      [] := by
    simp [plainAttributes, hkey]
  have hkind : kindOf ⟨path, "fig:", none⟩ 1 "fig:x" [] = .ok (.control, []) := by
    simp [kindOf, hname, controlKind]
  rw [expressionElement, element, hcontrol, hplain, hkind, directives_text, content]
  cases directive ⟨path, "fig:", none⟩ 1 source with
  | ok d => rfl
  | error fault => rfl

end Compile

/-- The page of an expression compiles just if the expression is one. -/
theorem compile_expressionPage (path source : String) :
    Template.compile path "fig:" (expressionPage source) = match Expr.parse source with
      | .ok expr => .ok (expressionTemplate path source expr)
      | .error problem => .error (.syntaxError ⟨path, 1⟩ source problem) := by
  have hdeclared : Compile.declaredLead? (expressionElement source).attributes = none := rfl
  unfold Template.compile
  rw [read_expressionPage]
  simp only [Template.ofDocument]
  rw [hdeclared, Option.map_none, Option.getD_none, Compile.element_expressionElement,
    Compile.directive]
  cases Expr.parse source with
  | ok expr => rfl
  | error problem => rfl

namespace Render

-- ---------------------------------------------------------------------------
-- Rendering
-- ---------------------------------------------------------------------------

/-- The states of an expression on its own, and of the same one in a page that shows nothing
else. -/
structure Detached (e : Engine) (page : Template) (s : Session) (m : Memory) (s' : Session)
    (m' : Memory) : Prop where
  root : s'.root = s.root
  frames : s'.frames = s.frames
  iterations : s'.iterations = s.iterations
  language : s'.language = s.language
  calls : s'.calls = s.calls
  functions : ∀ name f, s.functions.get? name = some f → e.function? name = some f
  functions' : ∀ name f, s'.functions.get? name = some f → e.function? name = some f
  views : s'.views = [⟨page, none, []⟩]
  slots : s'.slots = []
  warnings : s'.warnings = []
  memory : m' = m

/-- An expression on its own beside the same one in a page. -/
def detached (e : Engine) (page : Template) : Simulation where
  World := Unit
  le _ _ := True
  refl _ := trivial
  trans _ _ := trivial
  Rel _ := Detached e page
  Stops := Stop.Like
  first := False
  second := False

variable {e : Engine}

theorem Detached.start (e : Engine) (page : Template) (data : Value) (language : Option String)
    (m : Memory) : Detached e page (.start data language) m
      ((Session.start data language).addView page none) m where
  root := rfl
  frames := rfl
  iterations := rfl
  language := rfl
  calls := rfl
  functions _ _ h := by cases h
  functions' _ _ h := by cases h
  views := rfl
  slots := rfl
  warnings := rfl
  memory := rfl

/-- An expression comes to the same on its own and in a page. -/
theorem detached_evaluate (hfunctions : ∀ factory ∈ e.functions, ∀ name f, factory name = some f →
    Function.IgnoresPlace f) (page : Template) (p p' : Place) (expr : Expr) :
    (detached e page).Holds (fun _ => True) (evaluate e p expr) (evaluate e p' expr) := by
  have hplaces : (detached e page).AtPlaces e (fun _ => True) p p' := by
    refine Simulation.atPlaces_of_ignoresPlace hfunctions id ?_ ?_ ?_ ?_ p p'
    · intro _ s m s' m' (h : Detached e page s m s' m')
      simp [Session.iteration, h.iterations, h.language, h.calls]
    · exact fun _ s m s' m' (h : Detached e page s m s' m') name f =>
        ⟨h.functions name f, h.functions' name f⟩
    · exact fun _ s m s' m' (h : Detached e page s m s' m') _ _ hf =>
        { h with
          functions := Session.functions_lookedUp hf h.functions
          functions' := Session.functions_lookedUp hf h.functions' }
    · intro _ s m s' m' (h : Detached e page s m s' m')
      exact { h with calls := by simp [h.calls] }
  refine hplaces.evaluate (fun _ _ => trivial) ?_ (startsWithin_true expr)
  intro _ s m s' m' (h : Detached e page s m s' m') _ key _
  simp [Session.lookup, h.root, h.frames]

theorem output_expressionTemplate (inner : Renderer) (path source : String) (expr : Expr) :
    Renderer.output (tagStep e inner) (expressionTemplate path source expr).root 0 .none =
      evaluateText e ⟨0, 1⟩ expr := by
  unfold Renderer.output tagStep
  simp [expressionTemplate, Directives.none, single, condition, Suppressed.none, shown, kind,
    element, body, Tag.place]

end Render

namespace Engine

open Render

variable {e : Engine}

/-- The page of an expression is the text of its value. -/
theorem renderFrom_expressionTemplate (e : Engine) (depth : Nat) (path source : String)
    (expr : Expr) (s : Session) (m : Memory) :
    e.renderFrom (depth + 1) (expressionTemplate path source expr) s m =
      match Render.evaluate e ⟨0, 1⟩ expr
          (s.addView (expressionTemplate path source expr) none) m with
      | (.ok (v, t), _) => match v.text? with
        | some text => .ok ⟨Slot.splice t.slots t.plugs text, t.warnings⟩
        | none => .error (.fault (.noText (t.location 0 1)))
      | (.error stop, _) => .error stop := by
  rw [renderFrom, page_apply, bind_apply, Render.tag, output_expressionTemplate, evaluateText,
    bind_apply]
  rcases Render.evaluate e ⟨0, 1⟩ expr (s.addView (expressionTemplate path source expr) none) m with
    ⟨stop | ⟨v, t⟩, n⟩
  · rfl
  · simp only [textOf]
    cases v.text? with
    | none => rfl
    | some text =>
      have hnothing : (String.join ([].map (· ++ "\n")) : String) = "" := rfl
      simp only [pure_apply, bind_apply, get_apply, expressionTemplate, hnothing,
        String.empty_append]
      rfl

/-- How the page of an expression ends, beside the expression on its own. -/
inductive MeansAlike (e : Engine) (path source : String) (data : Value) (m : Memory) : Prop
  /-- What is no expression does not compile either. -/
  | syntaxError {problem : SyntaxError}
      (hevaluate : (e.evaluate source data m).1 =
        .error (.fault (.syntaxError ⟨"", 0⟩ source problem)))
      (hcompile : Template.compile path "fig:" (expressionPage source) =
        .error (.syntaxError ⟨path, 1⟩ source problem))
  | text {template : Template} {v : Value} {text : String}
      (hcompile : Template.compile path "fig:" (expressionPage source) = .ok template)
      (hevaluate : (e.evaluate source data m).1 = .ok v) (htext : v.text? = some text)
      (hrender : (e.render template data none m).1 = .ok ⟨text, []⟩)
  | collection {template : Template} {v : Value}
      (hcompile : Template.compile path "fig:" (expressionPage source) = .ok template)
      (hevaluate : (e.evaluate source data m).1 = .ok v) (hfull : v.IsFull)
      (hrender : (e.render template data none m).1 = .error (.fault (.noText ⟨path, 1⟩)))
  /-- The reasons are the same up to the places of faults. -/
  | stop {template : Template} {stop stop' : Stop}
      (hcompile : Template.compile path "fig:" (expressionPage source) = .ok template)
      (hevaluate : (e.evaluate source data m).1 = .error stop)
      (hrender : (e.render template data none m).1 = .error stop') (hlike : stop.Like stop')

/-- If no function of the host sees its place, an expression means the same in a template and on its
own, however it is written and whatever the data are. -/
theorem meansAlike_of_ignoresPlace (hfunctions : ∀ factory ∈ e.functions, ∀ name f,
    factory name = some f → Function.IgnoresPlace f) (path source : String) (data : Value)
    (m : Memory) : e.MeansAlike path source data m := by
  have hcompile := compile_expressionPage path source
  cases hparse : Expr.parse source with
  | error problem =>
    rw [hparse] at hcompile
    refine .syntaxError ?_ hcompile
    simp [evaluate, hparse]
  | ok expr =>
    rw [hparse] at hcompile
    let page := expressionTemplate path source expr
    have hrender : (e.render page data none m).1 =
        e.renderFrom depthLimit page (.start data e.language) m :=
      renderWithin_eq e depthLimit page data none m
    have hevaluate : (e.evaluate source data m).1 =
        (Render.evaluate e ⟨0, 1⟩ expr (.start data e.language) m).1.map Prod.fst := by
      simp only [evaluate, hparse, StateT.run]
      rcases Render.evaluate e ⟨0, 1⟩ expr (.start data e.language) m with ⟨stop | ⟨v, t⟩, n⟩
      · rfl
      · rfl
    have hends := detached_evaluate hfunctions page ⟨0, 1⟩ ⟨0, 1⟩ expr (w := ())
      (Detached.start e page data e.language m) trivial
    rw [depthLimit, renderFrom_expressionTemplate] at hrender
    generalize Render.evaluate e ⟨0, 1⟩ expr (.start data e.language) m = r at hevaluate hends
    generalize Render.evaluate e ⟨0, 1⟩ expr ((Session.start data e.language).addView page none) m =
      r' at hrender hends
    cases hends with
    | @ok _ v s s' _ _ _ hrel =>
      have hrel : Detached e page s _ s' _ := hrel
      cases htext : v.text? with
      | some text =>
        refine .text hcompile hevaluate htext (hrender.trans ?_)
        simp [htext, hrel.slots, hrel.warnings, Slot.splice]
      | none =>
        refine .collection hcompile hevaluate (Value.text?_eq_none_iff.1 htext) (hrender.trans ?_)
        simp [htext, Session.location, Views.path, hrel.views, page, expressionTemplate]
    | stop hlike => exact .stop hcompile hevaluate hrender hlike
    | first h => exact h.elim
    | second h => exact h.elim

/-- An engine with a function of the host. -/
def hostEngine : Engine :=
  { Engine.default with
    functions := [fun name => if name = "seven" then some fun _ _ => .ok (.int 7) else none] }

theorem meansAlike_hostEngine :
    (∀ factory ∈ hostEngine.functions, ∀ name f, factory name = some f → Function.IgnoresPlace f) ∧
      expressionPage "'<b>' + seven()" =
        "<fig:x fig:text=\"&#039;&lt;b&gt;&#039; + seven()\"/>" ∧
      (hostEngine.evaluate "'<b>' + seven()" .null (.ofFiles ⟨[]⟩)).1 = .ok (.string "<b>7") ∧
      hostEngine.MeansAlike "page.xml" "'<b>' + seven()" .null (.ofFiles ⟨[]⟩) := by
  have hfunctions : ∀ factory ∈ hostEngine.functions, ∀ name f, factory name = some f →
      Function.IgnoresPlace f := by
    intro factory hfactory name f hf
    cases List.mem_singleton.1 hfactory
    simp only at hf
    split at hf
    · cases hf
      exact fun _ _ _ => .ok _
    · cases hf
  have hscan : Token.scan "'<b>' + seven()".toList =
      .ok [⟨.string "<b>", 0⟩, ⟨.plus, 6⟩, ⟨.function "seven", 8⟩, ⟨.closeParen, 14⟩] := by
    decide +kernel
  have hparse : Expr.parse "'<b>' + seven()" =
      .ok (.binary .add (.literal (.string "<b>")) (.call "seven" [])) := by
    rw [Expr.parse, Expr.parseFrom, hscan]
    rfl
  have hvalue : (hostEngine.evaluate "'<b>' + seven()" .null (.ofFiles ⟨[]⟩)).1 =
      .ok (.string "<b>7") := by
    rw [evaluate, hparse]
    rfl
  exact ⟨hfunctions, by rfl, hvalue, meansAlike_of_ignoresPlace hfunctions _ _ _ _⟩

end Engine

end XmlTemplate
