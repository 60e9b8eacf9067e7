import XmlTemplate.Proofs.Render.Depth
import XmlTemplate.Proofs.Render.Growth
import XmlTemplate.Proofs.Render.Inert
import XmlTemplate.Proofs.Render.Overlay

/-!
# Calls render like bodies

A page that defines a tag as a macro and calls it is rendered like a page of that tag alone, on data
in which the arguments are fields. The arguments are evaluated first, and their content may mount
data, fill slots and call functions: the tag alone is rendered from there on.
-/

namespace XmlTemplate

/-- The renders end with the same output, or with the same fault up to the line at which it
shows. -/
inductive Rendered.SameOutput : Except Stop Rendered → Except Stop Rendered → Prop
  | ok {r r' : Rendered} (h : r'.output = r.output) : SameOutput (.ok r) (.ok r')
  | stop {stop stop' : Stop} (h : stop.Like stop') : SameOutput (.error stop) (.error stop')

/-- The tag, which defines no macro. -/
def Tag.withoutMacro (t : Tag) : Tag :=
  { t with directives := { t.directives with macroName := none } }

/-- All that the page does is to define a tag as a macro and to call it with another tag. -/
structure Template.Calls (page : Template) (name : String) (body caller : Tag) : Prop where
  kind : page.root.kind = .control
  directives : page.root.directives = .none
  children : page.root.children = [.child body, .child caller]
  defined : body.directives.macroName = some name
  cond : body.directives.cond = none
  belongs : body.kind.belongsToParent = false
  called : caller.directives.call = some name
  callerWalk : caller.directives.walk = none
  callerCond : caller.directives.cond = none
  callerBelongs : caller.kind.belongsToParent = false

namespace Template.Calls

variable {page : Template} {name : String} {body caller : Tag}

theorem body_mem (h : page.Calls name body caller) : body ∈ page.root.tags :=
  Tag.mem_tags_of_child (by simp [h.children])

/-- A compiled tag that defines a macro is not walked. -/
theorem bodyWalk (h : page.Calls name body caller) (hpage : page.IsCompiled) :
    body.directives.walk = none := by
  have hconflict := hpage.agree body h.body_mem
  cases hwalk : body.directives.walk with
  | none => rfl
  | some d => simp [Compile.conflict?, hwalk, h.defined] at hconflict

/-- A compiled tag that calls a macro defines none. -/
theorem callerMacro (h : page.Calls name body caller) (hpage : page.IsCompiled) :
    caller.directives.macroName = none := by
  have hmem : caller ∈ page.root.tags := Tag.mem_tags_of_child (by simp [h.children])
  have hconflict := hpage.agree caller hmem
  cases hundefined : caller.directives.macroName with
  | none => rfl
  | some other => simp [Compile.conflict?, h.callerWalk, hundefined, h.called] at hconflict

end Template.Calls

/-- The session in which a page has defined a macro. -/
def Session.defining (page : Template) (name : String) (body : Tag) (data : Value)
    (language : Option String) : Session :=
  ((Session.start data language).addView page none).defineMacro name ⟨0, body.id⟩

/-- A session on some data that goes on from the slots, the plugs and the calls of functions of
another one. -/
def Session.onward (data : Value) (s : Session) : Session :=
  { Session.start data s.language with slots := s.slots, plugs := s.plugs, calls := s.calls }

namespace Render

variable {e : Engine} {inner : Renderer} {view : Nat} {t : Tag}

-- ---------------------------------------------------------------------------
-- Tags of the page
-- ---------------------------------------------------------------------------

/-- The arguments of a call: the attributes of the tag, and its parameters put over them. -/
def allArguments (e : Engine) (inner : Renderer) (view : Nat) (t : Tag) : Render (Table Value) := do
  let arguments ← arguments e view t
  let parameters ← parameters e inner view t
  return parameters.foldl (fun done (key, v) => Table.put key v done) arguments

theorem callMacro_eq_allArguments (e : Engine) (inner : Renderer) (view : Nat) (t : Tag)
    (name : String) : callMacro e inner view t name = (do
      let all ← allArguments e inner view t
      invoke inner view t name all) := by
  simp only [callMacro_eq, allArguments, bind_assoc, pure_bind]

theorem Local.allArguments {P : ∀ {α : Type}, Render α → Prop} (h : Local e P)
    (hinner : ∀ t view suppressed, P (inner t view suppressed)) (view : Nat) (t : Tag) :
    P (allArguments e inner view t) :=
  h.bind (h.arguments view t) fun _ => h.bind (h.parameters hinner view t) fun _ => h.pure _

/-- A wrapper without directives is its content. -/
theorem output_tagStep_of_control (hkind : t.kind = .control) (hdirectives : t.directives = .none)
    (view : Nat) : Renderer.output (tagStep e inner) t view .none = content inner view t := by
  simp [Renderer.output, tagStep, single, condition, shown, kind, element, body, hkind, hdirectives,
    Directives.none, Suppressed.none]

/-- A tag that defines a macro does only that. -/
theorem output_tagStep_of_macroName {name : String} (hwalk : t.directives.walk = none)
    (hcond : t.directives.cond = none) (hname : t.directives.macroName = some name) (view : Nat) :
    Renderer.output (tagStep e inner) t view .none = (do
      modify (Session.defineMacro name ⟨view, t.id⟩)
      return "") := by
  simp [Renderer.output, tagStep, single, condition, hwalk, hcond, hname, Suppressed.none]

/-- A tag that calls a macro does only that. -/
theorem output_tagStep_of_call {name : String} (hwalk : t.directives.walk = none)
    (hcond : t.directives.cond = none) (hundefined : t.directives.macroName = none)
    (hcall : t.directives.call = some name) (view : Nat) :
    Renderer.output (tagStep e inner) t view .none = callMacro e inner view t name := by
  simp [Renderer.output, tagStep, single, condition, shown, hwalk, hcond, hundefined, hcall,
    Suppressed.none]

theorem shown_withoutMacro (e : Engine) (inner : Renderer) (view : Nat) (t : Tag) :
    shown e inner view t.withoutMacro = shown e inner view t := rfl

/-- The body of a macro is rendered as a tag that defines none. -/
theorem tag_withoutMacro (depth : Nat) (hwalk : t.directives.walk = none) (view : Nat) :
    tag e depth t view ⟨false, true⟩ = tag e depth t.withoutMacro view .none := by
  cases depth with
  | zero => rfl
  | succ depth =>
    have hwalk' : t.withoutMacro.directives.walk = none := hwalk
    have hundefined : t.withoutMacro.directives.macroName = none := rfl
    simp only [tag, tagStep, hwalk, hwalk', single, hundefined, shown_withoutMacro]
    refine bind_congr fun isThere => ?_
    cases isThere with
    | false => rfl
    | true => cases t.directives.macroName <;> rfl

-- ---------------------------------------------------------------------------
-- The call
-- ---------------------------------------------------------------------------

section

variable {page alone : Template} {name : String} {body caller : Tag}

theorem addNode_child (hbelongs : t.kind.belongsToParent = false) (view : Nat) (done : String) :
    addNode inner view done (.child t) = (do
      let text ← inner.output t view .none
      return done ++ text) := by
  simp only [addNode, hbelongs, map_eq_pure_bind, bind_assoc, pure_bind, Bool.false_eq_true,
    if_false]

/-- The page defines the macro and then calls it. -/
theorem output_of_calls (hcalls : page.Calls name body caller) (hpage : page.IsCompiled)
    (depth : Nat) : (tag e (depth + 2)).output page.root 0 .none = (do
      modify (Session.defineMacro name ⟨0, body.id⟩)
      callMacro e (tag e depth) 0 caller name) := by
  have hroot : Renderer.output (tagStep e (tag e (depth + 1))) page.root 0 .none =
      content (tag e (depth + 1)) 0 page.root :=
    output_tagStep_of_control hcalls.kind hcalls.directives 0
  have hbody : Renderer.output (tagStep e (tag e depth)) body 0 .none = (do
      modify (Session.defineMacro name ⟨0, body.id⟩)
      return "") :=
    output_tagStep_of_macroName (hcalls.bodyWalk hpage) hcalls.cond hcalls.defined 0
  have hcaller : Renderer.output (tagStep e (tag e depth)) caller 0 .none =
      callMacro e (tag e depth) 0 caller name :=
    output_tagStep_of_call hcalls.callerWalk hcalls.callerCond (hcalls.callerMacro hpage)
      hcalls.called 0
  calc (tag e (depth + 2)).output page.root 0 .none
    _ = content (tag e (depth + 1)) 0 page.root := hroot
    _ = (do
        let first ← Renderer.output (tagStep e (tag e depth)) body 0 .none
        let second ← Renderer.output (tagStep e (tag e depth)) caller 0 .none
        return "" ++ first ++ second) := by
      simp only [content, hcalls.children, List.foldlM_cons, List.foldlM_nil,
        addNode_child hcalls.belongs, addNode_child hcalls.callerBelongs, bind_assoc, pure_bind,
        tag]
    _ = (do
        modify (Session.defineMacro name ⟨0, body.id⟩)
        callMacro e (tag e depth) 0 caller name) := by
      simp only [hbody, hcaller, bind_assoc, pure_bind, String.empty_append, bind_pure]

/-- Evaluating the arguments leaves the frames as they were. -/
theorem grows_of_arguments {m m₁ : Memory} {data : Value} {all : Table Value}
    {language : Option String} {depth : Nat} {s : Session}
    (harguments : allArguments e (tag e depth) 0 caller (.defining page name body data language) m =
      (.ok (all, s), m₁)) : (Session.defining page name body data language).Grows s :=
  (growing_local e).allArguments (fun t view => growing_tag e view depth t) 0 caller _ harguments

theorem recalls_of_arguments {m m₁ : Memory} {data all : Table Value} {language : Option String}
    {depth : Nat} {s : Session}
    (hparsed : ∀ source expr, m.parsed.get? source = some expr → Expr.parse source = .ok expr)
    (harguments : allArguments e (tag e depth) 0 caller
      (.defining page name body (.object data) language) m = (.ok (all, s), m₁)) :
    Recalls e language s m₁ :=
  have hstart : Recalls e language (.defining page name body (.object data) language) m :=
    (Recalls.start e data language hparsed).of_eq rfl rfl rfl rfl
  recalling_local.allArguments (recalling_tag e language depth) 0 caller hstart harguments

/-- The data behind the arguments is the data before, with what their content mounts. -/
theorem mountsInto_of_arguments {m m₁ : Memory} {data all mounted : Table Value}
    {language : Option String} {depth : Nat} {s : Session}
    (harguments : allArguments e (tag e depth) 0 caller
      (.defining page name body (.object data) language) m = (.ok (all, s), m₁))
    (hmounted : s.root = .object mounted) :
    MountsInto (allArguments e (tag e depth) 0 caller)
      (.defining page name body (.object data) language) m data mounted :=
  ((mounting_local e).allArguments (mounting_tag e depth) 0 caller).mountsInto harguments rfl
    hmounted

/-- Arguments with inert content leave no trace. -/
theorem resting_allArguments (hinert : caller.HasInertParameters) (depth view : Nat) :
    Resting (allArguments e (tag e depth) view caller) := by
  have harguments := resting_of_keeping ((keeping_local e).arguments view caller)
    ((leavesRoot_local e).arguments view caller)
  have hparameters : Resting (parameters e (tag e depth) view caller) :=
    resting_parameters (fun _ hu => resting_tag e depth hu) hinert
  exact resting_composes.bind harguments fun _ =>
    resting_composes.bind hparameters fun _ => resting_composes.pure _

/-- Behind arguments with inert content the root is the data itself, and a tag alone starts afresh
but for the calls of functions. -/
theorem of_arguments_of_inert {m m₁ : Memory} {data all : Table Value} {language : Option String}
    {depth : Nat} {s : Session}
    (hparsed : ∀ source expr, m.parsed.get? source = some expr → Expr.parse source = .ok expr)
    (harguments : allArguments e (tag e depth) 0 caller
      (.defining page name body (.object data) language) m = (.ok (all, s), m₁))
    (hinert : caller.HasInertParameters) : s.root = .object data ∧
      ∀ root, s.onward root = { Session.start root language with calls := s.calls } := by
  obtain ⟨hroot, -, hslots, hplugs⟩ := resting_allArguments hinert depth 0 _ harguments
  have hlanguage := (recalls_of_arguments hparsed harguments).language
  refine ⟨hroot, fun root => ?_⟩
  rw [Session.onward, hlanguage, hslots, hplugs]
  rfl

/-- The states behind the arguments: in the body of the macro, and before the tag alone. -/
theorem overlaid_enterMacro {m m₁ : Memory} {data all mounted whole : Table Value}
    {language : Option String} {depth : Nat} {s : Session}
    (hparsed : ∀ source expr, m.parsed.get? source = some expr → Expr.parse source = .ok expr)
    (harguments : allArguments e (tag e depth) 0 caller
      (.defining page name body (.object data) language) m = (.ok (all, s), m₁))
    (hmounted : s.root = .object mounted) (hwhole : all.Overlays mounted whole) :
    Overlaid e language all whole [] (s.enterMacro all) m₁
      ((s.onward (.object whole)).addView alone none) m := by
  have hgrows := grows_of_arguments harguments
  have hafter := recalls_of_arguments hparsed harguments
  exact
    { frames := by
        rw [Session.enterMacro, hgrows.frames]
        rfl
      frames' := rfl
      root := ⟨mounted, hmounted, hwhole⟩
      root' := rfl
      iterations := rfl
      slots := rfl
      plugs := rfl
      calls := rfl
      recalls := hafter.of_eq rfl rfl rfl rfl
      recalls' := (Recalls.start e whole language hparsed).of_eq hafter.language rfl rfl rfl }

/-- Behind the arguments, the macro is found in the page. -/
theorem find?_of_arguments {m m₁ : Memory} {data all : Table Value} {language : Option String}
    {depth : Nat} {s : Session} (hpage : page.IsCompiled)
    (hcalls : page.Calls name body caller)
    (harguments : allArguments e (tag e depth) 0 caller
      (.defining page name body (.object data) language) m = (.ok (all, s), m₁)) :
    ((s.views[0]?).bind fun v => v.template.find? body.id) = some body := by
  have hgrows := grows_of_arguments harguments
  obtain ⟨more, hmore⟩ := hgrows.views
  have hshape : (s.views[0]?).map View.shape = some (page, none) := by
    rw [← List.getElem?_map, ← hmore]
    rfl
  obtain ⟨v, hv, hpair⟩ := Option.map_eq_some_iff.1 hshape
  have htemplate : v.template = page := congrArg Prod.fst hpair
  rw [hv, Option.bind_some, htemplate]
  exact hpage.numbered.find?_eq hcalls.body_mem

end

end Render

namespace Engine

open Render

variable {e : Engine} {page alone : Template} {name : String} {body caller : Tag}

/-- Let a page define a tag as a macro and call it. The tag is made of elements, wrappers,
attributes and their directives, and its paths start near. If the arguments come to a table, then
the data is still an object, and the page is rendered like the tag alone, which defines no macro, on
that object with the arguments over it. This goes for faults too, up to the lines at which they
show. The object is the data with what the content of the arguments has mounted, and the tag alone
goes on from their slots, plugs and calls of functions. If this content is inert then the object is
the data itself, and the tag alone starts afresh but for the calls. The arguments must not have
defined the macro anew. -/
theorem renderWithin_calls {m m₁ : Memory} {data all : Table Value} {language : Option String}
    {depth : Nat} {s : Session}
    (hfunctions : ∀ factory ∈ e.functions, ∀ name f, factory name = some f →
      Function.IgnoresPlace f)
    (hparsed : ∀ source expr, m.parsed.get? source = some expr → Expr.parse source = .ok expr)
    (hpage : page.IsCompiled) (hcalls : page.Calls name body caller)
    (hbody : body.withoutMacro.IsBody false) (hroot : body.withoutMacro.IsCopy alone.root)
    (hinstructions : alone.instructions = page.instructions)
    (harguments : allArguments e (tag e depth) 0 caller
      (.defining page name body (.object data) (language.or e.language)) m = (.ok (all, s), m₁))
    (hdefined : s.macros.get? name = some ⟨0, body.id⟩) :
    ∃ mounted : Table Value, s.root = .object mounted ∧
      MountsInto (allArguments e (tag e depth) 0 caller)
        (.defining page name body (.object data) (language.or e.language)) m data mounted ∧
      (caller.HasInertParameters → mounted = data ∧ ∀ root, s.onward root =
        { Session.start root (language.or e.language) with calls := s.calls }) ∧
      ∀ whole, all.Overlays mounted whole →
        Rendered.SameOutput (e.renderWithin (depth + 2) page (.object data) language m).1
          (e.renderFrom depth alone (s.onward (.object whole)) m) := by
  obtain ⟨mounted, hmounted⟩ := (recalls_of_arguments hparsed harguments).root
  refine ⟨mounted, hmounted, mountsInto_of_arguments harguments hmounted, fun hinert => ?_,
    fun whole hwhole => ?_⟩
  · obtain ⟨hdata, honward⟩ := of_arguments_of_inert hparsed harguments hinert
    exact ⟨Value.object.inj (hmounted.symm.trans hdata), honward⟩
  have hstates : Overlaid e (language.or e.language) all whole [] (s.enterMacro all) m₁
      ((s.onward (.object whole)).addView alone none) m :=
    overlaid_enterMacro hparsed harguments hmounted hwhole
  have hcalled : (tag e (depth + 2)).output page.root 0 .none
      ((Session.start (.object data) (language.or e.language)).addView page none) m = (do
        let text ← (tag e depth).output body.withoutMacro 0 .none
        modify (Session.leaveMacro s)
        return text : Render String) (s.enterMacro all) m₁ := by
    rw [output_of_calls hcalls hpage]
    change callMacro e (tag e depth) 0 caller name
      (.defining page name body (.object data) (language.or e.language)) m = _
    rw [callMacro_eq_allArguments, bind_apply, harguments]
    simp only [invoke_apply, hdefined, find?_of_arguments hpage hcalls harguments, Renderer.output,
      tag_withoutMacro depth (hcalls.bodyWalk hpage)]
  have hsame : body.withoutMacro.IsSameBody false alone.root := ⟨hbody, hroot⟩
  have htag : Agreeing e (language.or e.language) all whole []
      (tag e depth body.withoutMacro 0 .none) (tag e depth alone.root 0 .none) :=
    rendersBodies_tag hfunctions depth hsame hcalls.belongs nofun nofun
  have hends : (overlaid e (language.or e.language) all whole []).Ends ()
      ((tag e depth).output body.withoutMacro 0 .none (s.enterMacro all) m₁)
      ((tag e depth).output alone.root 0 .none ((s.onward (.object whole)).addView alone none) m) :=
    overlaid_pairs.map _ htag hstates trivial
  rw [renderWithin_eq, renderFrom, renderFrom, page_apply, page_apply, hinstructions, bind_apply,
    bind_apply, hcalled, bind_apply]
  generalize (tag e depth).output body.withoutMacro 0 .none (s.enterMacro all) m₁ = r at *
  generalize (tag e depth).output alone.root 0 .none
    ((s.onward (.object whole)).addView alone none) m = r' at *
  cases hends with
  | @ok _ text s s' _ _ _ hrel =>
    have hsame : Overlaid e _ all whole [] s _ s' _ := hrel
    refine .ok ?_
    rw [hsame.slots, hsame.plugs]
    rfl
  | stop hlike => exact .stop hlike
  | first h => exact h.elim
  | second h => exact h.elim

end Engine

namespace Render

/-- A page with a tag that is defined as a macro and shows `n`, and with a call of it that has a
parameter whose content mounts a text as `n`. -/
def mountingText : String :=
  "<fig:x><p fig:macro='m' title='\x7bn\x7d'/><i fig:call='m'><fig:param name='a'>" ++
    "<fig:mount target='n'>5</fig:mount></fig:param></i></fig:x>"

def mountingDocument : Document :=
  let body : Element := ⟨"p", [("fig:macro", "m"), ("title", "\x7bn\x7d")], 1, true, []⟩
  let mounting : Element := ⟨"fig:mount", [("target", "n")], 1, false, [.text "5"]⟩
  let parameter : Element := ⟨"fig:param", [("name", "a")], 1, false, [.child mounting]⟩
  let caller : Element := ⟨"i", [("fig:call", "m")], 1, false, [.child parameter]⟩
  ⟨⟨"fig:x", [], 1, false, [.child body, .child caller]⟩, []⟩

def mountingBody : Tag :=
  { (default : Tag) with
    id := 1, name := "p", line := 1, selfClosing := true, attributes := [("title", "\x7bn\x7d")]
    directives := { Directives.none with macroName := some "m" } }

def mountingCaller : Tag :=
  let mounting : Tag := { (default : Tag) with
    id := 4, name := "fig:mount", line := 1, kind := .mount "n" none, directives := .none
    children := [.text "5"] }
  let parameter : Tag := { (default : Tag) with
    id := 3, name := "fig:param", line := 1, kind := .param "a" none, directives := .none
    children := [.child mounting] }
  { (default : Tag) with
    id := 2, name := "i", line := 1, directives := { Directives.none with call := some "m" }
    children := [.child parameter] }

def mountingPage : Template :=
  let root : Tag := { (default : Tag) with
    name := "fig:x", line := 1, kind := .control, directives := .none
    children := [.child mountingBody, .child mountingCaller] }
  ⟨"page.xml", "fig:", root, []⟩

/-- The tag alone. -/
def mountingAlone : Template := ⟨"page.xml", "fig:", mountingBody.withoutMacro, []⟩

unseal Text.unescape? in
theorem compile_mountingPage :
    Template.compile "page.xml" "fig:" mountingText = .ok mountingPage := by
  have hread : Document.read mountingText = .ok mountingDocument := by decide +kernel
  rw [Template.compile, hread]
  rfl

theorem isCompiled_mountingPage : mountingPage.IsCompiled :=
  Template.isCompiled_of_compile compile_mountingPage

theorem calls_mountingPage : mountingPage.Calls "m" mountingBody mountingCaller := by
  constructor <;> rfl

theorem isCopy_mountingAlone : mountingBody.withoutMacro.IsCopy mountingAlone.root :=
  Tag.matches_self _

theorem isBody_mountingBody : mountingBody.withoutMacro.IsBody false := by
  refine .intro (.inl rfl) rfl rfl nofun ⟨nofun, nofun, fun p hp run hrun expr hexpr => ?_⟩ nofun
  cases List.mem_singleton.1 hp
  have hpieces : Piece.ofAttribute "\x7bn\x7d" = [.run ['n']] := by decide +kernel
  rw [hpieces, List.mem_singleton] at hrun
  cases hrun
  have hunescape : Text.unescape (String.ofList ['n']) = "n" := by decide +kernel
  have hscan : Token.scan "n".toList = .ok [⟨.path [.name "n"], 0⟩] := by decide +kernel
  have hparse : Expr.parse "n" = .ok (.path [.name "n"]) := by
    rw [Expr.parse, Expr.parseFrom, hscan]
    rfl
  rw [hunescape, hparse] at hexpr
  cases hexpr
  have hnear : Session.IsNear false "n" := ⟨by decide, by decide, by decide⟩
  exact ⟨hnear, trivial⟩

end Render

namespace Engine

open Render

/-- What is mounted is a field of the data behind the arguments, and the page shows it. -/
theorem renderWithin_calls_mounting : ∃ s m₁,
    allArguments .default (tag .default 4) 0 mountingCaller
        (.defining mountingPage "m" mountingBody (.object []) none) (.ofFiles .empty) =
      (.ok ([("a", .string "")], s), m₁) ∧
    MountsInto (allArguments .default (tag .default 4) 0 mountingCaller)
      (.defining mountingPage "m" mountingBody (.object []) none) (.ofFiles .empty) []
      [("n", .string "5")] ∧
    Rendered.SameOutput
      (Engine.default.renderWithin 6 mountingPage (.object []) none (.ofFiles .empty)).1
      (Engine.default.renderFrom 4 mountingAlone
        (s.onward (.object [("a", .string ""), ("n", .string "5")])) (.ofFiles .empty)) := by
  obtain ⟨s, m₁, harguments, hroot, hdefined⟩ : ∃ s m₁,
      allArguments .default (tag .default 4) 0 mountingCaller
          (.defining mountingPage "m" mountingBody (.object []) none) (.ofFiles .empty) =
        (.ok ([("a", .string "")], s), m₁) ∧ s.root = .object [("n", .string "5")] ∧
          s.macros.get? "m" = some ⟨0, mountingBody.id⟩ :=
    ⟨_, _, rfl, rfl, rfl⟩
  have hfunctions : ∀ factory ∈ Engine.default.functions, ∀ name f, factory name = some f →
      Function.IgnoresPlace f := fun _ h => nomatch h
  have hparsed : ∀ source expr, (Memory.ofFiles .empty).parsed.get? source = some expr →
      Expr.parse source = .ok expr := fun _ _ h => nomatch h
  obtain ⟨mounted, hmounted, hinto, -, hsame⟩ := @renderWithin_calls .default mountingPage
    mountingAlone "m" mountingBody mountingCaller _ _ [] _ none 4 s hfunctions hparsed
    isCompiled_mountingPage calls_mountingPage isBody_mountingBody isCopy_mountingAlone rfl
    harguments hdefined
  cases hroot.symm.trans hmounted
  have hwhole : Table.Overlays [("a", Value.string "")] [("n", .string "5")]
      [("a", .string ""), ("n", .string "5")] := by
    intro key
    simp only [Table.get?]
    split <;> rfl
  exact ⟨s, m₁, harguments, hinto, hsame _ hwhole⟩

/-- The tag alone, on the data as it was before the call with the arguments over it, does not show
what the arguments mount. -/
theorem not_sameOutput_mounting :
    mountingPage.IsCompiled ∧ mountingPage.Calls "m" mountingBody mountingCaller ∧
      mountingBody.withoutMacro.IsBody false ∧
      mountingBody.withoutMacro.IsCopy mountingAlone.root ∧
      (∃ s m₁, allArguments .default (tag .default 4) 0 mountingCaller
          (.defining mountingPage "m" mountingBody (.object []) none) (.ofFiles .empty) =
        (.ok ([("a", .string "")], s), m₁)) ∧
      Table.Overlays [("a", Value.string "")] [] [("a", .string "")] ∧
      ¬ Rendered.SameOutput
        (Engine.default.renderWithin 6 mountingPage (.object []) none (.ofFiles .empty)).1
        (Engine.default.renderWithin 6 mountingAlone (.object [("a", .string "")]) none
          (.ofFiles .empty)).1 := by
  refine ⟨isCompiled_mountingPage, calls_mountingPage, isBody_mountingBody,
    isCopy_mountingAlone, ⟨_, _, rfl⟩, fun key => (Option.or_none).symm, fun hsame => ?_⟩
  have hcalled : (Engine.default.renderWithin 6 mountingPage (.object []) none
      (.ofFiles .empty)).1.toOption.map (·.output) = some "<p title=\"5\" />" := by
    decide +kernel
  have halone : (Engine.default.renderWithin 6 mountingAlone (.object [("a", .string "")]) none
      (.ofFiles .empty)).1.toOption.map (·.output) = some "<p title=\"\" />" := by
    decide +kernel
  generalize (Engine.default.renderWithin 6 mountingPage (.object []) none (.ofFiles .empty)).1 = r
    at hsame hcalled
  generalize (Engine.default.renderWithin 6 mountingAlone (.object [("a", .string "")]) none
    (.ofFiles .empty)).1 = r' at hsame halone
  cases hsame with
  | ok h =>
    have houtputs := (Option.some.inj halone).symm.trans (h.trans (Option.some.inj hcalled))
    exact absurd houtputs (by decide)
  | stop _ => cases hcalled

end Engine

end XmlTemplate
