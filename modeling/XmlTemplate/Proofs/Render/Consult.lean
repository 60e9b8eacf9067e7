import XmlTemplate.Proofs.Render.Step
import XmlTemplate.Render.Page

/-!
# What a render asks the engine for

A render changes what the engine remembers by three questions: for a template, for a dictionary,
and for the expression of a text. A property of steps that these questions and the steps on the
session have is one of whole renders. What each question leaves of the memory is thereby left by
every render, wherever it stops.
-/

namespace XmlTemplate

namespace Render

-- ---------------------------------------------------------------------------
-- Properties of all steps
-- ---------------------------------------------------------------------------

/-- A property that the steps of expressions have, those on the session, and the questions to the
engine. -/
structure Basic (e : Engine) (P : ∀ {α : Type}, Render α → Prop) : Prop extends Local e P where
  get : P (get : Render Session)
  set (s : Session) : P (set s : Render PUnit)
  load (place : Place) (path : String) : P (consult place (e.load path))
  loadDictionary (place : Place) (language file : String) :
    P (consult place (e.loadDictionary language file))
  read (place : Place) (path : String) :
    P (consult place fun m => (e.source.read m.files path, m))
  depth : P (throw .depth : Render (Option String))

namespace Basic

variable {e : Engine} {P : ∀ {α : Type}, Render α → Prop}

theorem modify (h : Basic e P) (f : Session → Session) : P (modify f : Render PUnit) :=
  h.bind h.get fun s => h.set (f s)

theorem warnAt (h : Basic e P) (place : Place) (f : Location → Fault) : P (warnAt place f) :=
  h.modify _

/-! ### Kinds of tags -/

theorem verbatim (h : Basic e P) (view : Nat) (t : Tag) (file : String) :
    P (verbatim e view t file) :=
  h.bind h.get fun _ => h.bind (h.read _ _) fun _ => h.pure _

theorem findFeed (h : Basic e P) (place : Place) (feedClass : String) (parameters : Table Value) :
    P (findFeed e place feedClass parameters) := by
  apply h.bind h.get
  intro s
  split
  · split
    · exact h.pure _
    · exact h.failAt _ _
  · split
    · exact h.bind (h.set _) fun _ => h.pure _
    · exact h.failAt _ _

theorem feed (h : Basic e P) (view : Nat) (t : Tag) (feedClass : String)
    (target : Option String) : P (feed e view t feedClass target) := by
  apply h.bind (h.arguments view t)
  intro parameters
  apply h.bind (h.findFeed _ _ _)
  intro feed
  split
  · exact h.modify _
  · exact h.pure _
  · exact h.failAt _ _

theorem dictionary (h : Basic e P) (view : Nat) (t : Tag) (file : String)
    (name source : Option String) : P (dictionary e view t file name source) := by
  apply h.bind h.get
  intro s
  split
  · exact h.pure _
  · split
    · exact h.pure _
    · exact h.bind (h.loadDictionary _ _ _) fun d =>
        h.bind (h.forM (fun _ => h.modify _) d.duplicates) fun _ => h.modify _

section

variable {inner : Renderer} (hinner : ∀ t view suppressed, P (inner t view suppressed))

include hinner

theorem inclusion (h : Basic e P) (view : Nat) (t : Tag) (file : String) :
    P (inclusion e inner view t file) :=
  h.bind h.get fun _ => h.bind (h.load _ _) fun _ => h.bind h.get fun _ =>
    h.bind (h.set _) fun _ => h.bind (hinner _ _ _) fun _ => h.pure _

theorem mount (h : Basic e P) (view : Nat) (t : Tag) (target : String)
    (value : Option Directive) : P (mount e inner view t target value) := by
  unfold Render.mount
  split
  · exact h.bind (h.evaluate _ _) fun _ => h.modify _
  · exact h.bind (h.content hinner view t) fun _ => h.modify _

theorem finish (h : Basic e P) (view : Nat) (t : Tag) (key text : String) :
    P (finish e inner view t key text) := by
  apply h.bind (h.fillPlaceholders hinner view t text)
  intro text
  split
  · exact h.bind (h.warnAt _ _) fun _ => h.pure _
  · exact h.pure _

theorem trans (h : Basic e P) (view : Nat) (t : Tag) (key dict source : Option String) :
    P (trans e inner view t key dict source) := by
  have htranslated (key : String) (found : Translation) :
      P (translated e inner view t dict key found) := by
    cases found with
    | found text => exact h.finish hinner view t key text
    | missingEntry => exact h.bind (h.warnAt _ _) fun _ => h.pure _
    | missingDictionary =>
      unfold translated
      exact h.failAt _ _
  have hfound (key : String) :
      P (do
        translated e inner view t dict key ((← MonadState.get).views.translate view key dict)) :=
    h.bind h.get fun s => htranslated key _
  rw [trans_eq]
  refine h.bind h.get fun s => ?_
  unfold transIn
  split
  · exact h.bind (h.content hinner view t) fun text => h.finish hinner view t _ text
  · cases key with
    | some key => exact h.bind (h.pure key) hfound
    | none => exact h.bind (h.content hinner view t) hfound

theorem kind (h : Basic e P) (view : Nat) (t : Tag) : P (kind e inner view t) := by
  have hdone : P (Pure.pure "" : Render String) := h.pure ""
  unfold Render.kind
  split
  · exact h.element hinner view t
  · exact h.element hinner view t
  · exact h.inclusion hinner view t _
  · exact h.verbatim view t _
  · exact hdone
  · exact hdone
  · exact h.bind (h.feed view t _ _) fun _ => hdone
  · exact h.bind (h.dictionary view t _ _ _) fun _ => hdone
  · exact h.bind (h.mount hinner view t _ _) fun _ => hdone
  · exact h.trans hinner view t _ _ _

/-! ### Directives -/

theorem addItem (h : Basic e P) (view : Nat) (t : Tag) (suppressed : Suppressed) (done : String)
    (item : Value × Value) : P (addItem inner view t suppressed done item) := by
  rw [addItem_eq]
  exact h.bind (h.modify _) fun _ => h.bind (hinner _ _ _) fun _ =>
    h.bind (h.modify _) fun _ => h.pure _

theorem walk (h : Basic e P) (view : Nat) (t : Tag) (d : Directive) (suppressed : Suppressed) :
    P (walk e inner view t d suppressed) :=
  h.bind (h.evaluate _ _) fun _ => h.bind (h.modify _) fun _ =>
    h.bind (h.foldlM (h.addItem hinner view t _) _ _) fun _ =>
      h.bind (h.modify _) fun _ => h.pure _

theorem macroBody (h : Basic e P) (arguments : Table Value) (body : MacroBody) :
    P (macroBody inner arguments body) := by
  apply h.bind h.get
  intro s
  split
  · exact h.pure _
  · exact h.bind (h.set _) fun _ => h.bind (hinner _ _ _) fun _ =>
      h.bind (h.modify _) fun _ => h.pure _

theorem callMacro (h : Basic e P) (view : Nat) (t : Tag) (name : String) :
    P (callMacro e inner view t name) := by
  apply h.bind (h.arguments view t)
  intro arguments
  apply h.bind (h.parameters hinner view t)
  intro parameters
  apply h.bind h.get
  intro s
  split
  · exact h.macroBody hinner _ _
  · exact h.bind (h.warnAt _ _) fun _ => h.pure _

theorem slot (h : Basic e P) (view : Nat) (t : Tag) (name : String) :
    P (slot e inner view t name) :=
  h.bind (h.modify _) fun _ => h.bind (h.kind hinner view t) fun _ => h.pure _

theorem plug (h : Basic e P) (view : Nat) (t : Tag) (name : String) :
    P (plug e inner view t name) :=
  h.bind (h.kind hinner view t) fun _ => h.bind (h.flag _ _) fun _ => h.modify _

theorem shown (h : Basic e P) (view : Nat) (t : Tag) : P (shown e inner view t) := by
  unfold Render.shown
  split
  · exact h.map some (h.callMacro hinner view t _)
  · exact h.map some (h.slot hinner view t _)
  · exact h.bind (h.plug hinner view t _) fun _ => h.pure _
  · exact h.map some (h.kind hinner view t)

theorem single (h : Basic e P) (view : Nat) (t : Tag) (suppressed : Suppressed) :
    P (single e inner view t suppressed) := by
  apply h.bind (h.condition view t)
  intro isThere
  split
  · split
    · exact h.bind (h.modify _) fun _ => h.pure _
    · exact h.shown hinner view t
  · exact h.pure _

theorem tagStep (h : Basic e P) (view : Nat) (t : Tag) (suppressed : Suppressed) :
    P (tagStep e inner t view suppressed) := by
  unfold Render.tagStep
  split
  · exact h.map some (h.walk hinner view t _ suppressed)
  · exact h.single hinner view t suppressed

end

/-! ### Whole renders -/

theorem tag (h : Basic e P) (depth view : Nat) (t : Tag) (suppressed : Suppressed) :
    P (tag e depth t view suppressed) := by
  induction depth generalizing t view suppressed with
  | zero => exact h.depth
  | succ depth ih =>
    exact h.tagStep (fun t view suppressed => ih view t suppressed) view t suppressed

theorem page (h : Basic e P) (depth : Nat) (template : Template) : P (page e depth template) :=
  h.bind (h.modify _) fun _ => h.bind (h.tag depth _ _ _) fun _ => h.bind h.get fun _ => h.pure _

end Basic

-- ---------------------------------------------------------------------------
-- What becomes of the memory
-- ---------------------------------------------------------------------------

end Render

/-- What an engine remembers before and after any number of questions. -/
structure Engine.Admits (e : Engine) (R : Memory → Memory → Prop) : Prop where
  refl (m : Memory) : R m m
  trans {m m' m'' : Memory} : R m m' → R m' m'' → R m m''
  load (path : String) (m : Memory) : R m (e.load path m).2
  loadDictionary (language file : String) (m : Memory) : R m (e.loadDictionary language file m).2
  parsed (exprs : Table Expr) (m : Memory) : R m { m with parsed := exprs }

namespace Render

/-- However the step ends, the memory it leaves is related to the one it starts from. -/
def Remembers (R : Memory → Memory → Prop) (x : Render α) : Prop := ∀ s m, R m (x s m).2

variable {e : Engine} {R : Memory → Memory → Prop}

theorem remembers_consult {use : Memory → Except Fault α × Memory} (h : ∀ m, R m (use m).2)
    (place : Place) : Remembers R (consult place use) := by
  intro s m
  have hm := h m
  rw [consult_apply]
  split
  · rename_i heq
    rwa [heq] at hm
  · rename_i heq
    rwa [heq] at hm

theorem remembers_composes (h : e.Admits R) : Composes Render (Remembers R) where
  pure _ _ m := h.refl m
  bind hx hf s m := by
    rw [bind_apply]
    have hm := hx s m
    split
    · rename_i heq
      rw [heq] at hm
      exact h.trans hm (hf _ _ _)
    · rename_i heq
      rwa [heq] at hm

theorem remembers_function (h : e.Admits R) (place : Place) (name : String) :
    Remembers R (function e place name) := by
  intro s m
  rw [function_apply]
  split
  · exact h.refl m
  · split
    · exact h.refl m
    · exact h.refl m

theorem remembers_call (h : e.Admits R) (place : Place) (name : String) (args : List Value) :
    Remembers R (call e place name args) := by
  intro s m
  have hm := remembers_function h place name s m
  rw [call_apply]
  split
  · rename_i heq
    rw [heq] at hm
    split
    · exact hm
    · exact hm
  · rename_i heq
    rwa [heq] at hm

theorem remembers_parse (h : e.Admits R) (place : Place) (source : String) :
    Remembers R (parse place source) := by
  intro s m
  rw [parse_apply]
  split
  · exact h.refl m
  · split
    · exact h.parsed _ m
    · exact h.refl m

theorem remembers_basic (h : e.Admits R) : Basic e (Remembers R) where
  toComposes := remembers_composes h
  environment place :=
    { lookup := fun _ _ m => h.refl m
      call := remembers_call h place
      noText := fun _ m => h.refl m }
  parse := remembers_parse h
  failAt _ _ _ m := h.refl m
  get _ m := h.refl m
  set _ _ m := h.refl m
  load place path := remembers_consult (h.load path) place
  loadDictionary place language file := remembers_consult (h.loadDictionary language file) place
  read place _ := remembers_consult h.refl place
  depth _ m := h.refl m

end Render

namespace Engine.Admits

variable {e : Engine} {R : Memory → Memory → Prop}

theorem render (h : e.Admits R) (template : Template) (data : Value) (language : Option String)
    (m : Memory) : R m (e.render template data language m).2 := by
  have hpage := (Render.remembers_basic h).page depthLimit template
    (Session.start data (language.or e.language)) m
  unfold Engine.render renderWithin
  simp only [StateT.run]
  split
  · rename_i heq
    rwa [heq] at hpage
  · rename_i heq
    rwa [heq] at hpage

theorem renderFile (h : e.Admits R) (path : String) (data : Value) (language : Option String)
    (m : Memory) : R m (e.renderFile path data language m).2 := by
  have hload := h.load path m
  unfold Engine.renderFile
  split
  · rename_i heq
    rwa [heq] at hload
  · rename_i heq
    rw [heq] at hload
    exact h.trans hload (h.render _ _ _ _)

end Engine.Admits

end XmlTemplate
