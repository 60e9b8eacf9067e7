import XmlTemplate.Proofs.Engine.Asked
import XmlTemplate.Proofs.Function.BuiltIn
import XmlTemplate.Proofs.Render.Alone
import XmlTemplate.Proofs.Render.Depth
import XmlTemplate.Proofs.Render.Growth

/-!
# Sessions in order

Among templates that include none but themselves, all views of a session stay views of these
templates, and a name of a macro always stands for a tag that defines a macro of this name, however
often it is defined anew. A render is set beside itself to say that it keeps to this order and does
not run out of depth.
-/

namespace XmlTemplate

namespace Render

/-- All views are of the templates, and all macros are of tags that define them. -/
structure InOrder (e : Engine) (m₀ : Memory) (templates known : List Template) (s : Session)
    (m : Memory) : Prop where
  views : s.views.map (·.template) = known
  among : ∀ template ∈ known, template ∈ templates
  functions : ∀ name f, s.functions.get? name = some f → e.function? name = some f
  macros : ∀ name body, s.macros.get? name = some body → ∃ template t,
    known[body.view]? = some template ∧ t ∈ template.root.tags ∧
      template.find? body.tag = some t ∧ t.directives.macroName = some name
  asked : e.Asked m₀ m

/-- A render beside itself, in sessions in order. It never runs out of depth. -/
def inOrder (e : Engine) (m₀ : Memory) (templates : List Template) : Simulation where
  World := List Template
  le := (· <+: ·)
  refl _ := List.prefix_rfl
  trans := List.IsPrefix.trans
  Rel known s m s' m' := s' = s ∧ m' = m ∧ InOrder e m₀ templates known s m
  Stops stop stop' := stop' = stop ∧ stop ≠ .depth
  first := False
  second := False

/-- A view is of a template. -/
def IsAt (view : Nat) (template : Template) (known : List Template) : Prop :=
  known[view]? = some template

section

variable (e : Engine) (m₀ : Memory) (templates : List Template)

theorem isAt_lasts (view : Nat) (template : Template) :
    (inOrder e m₀ templates).Lasts (IsAt view template) := by
  intro known known' hle hat
  obtain ⟨more, rfl⟩ := hle
  have hlength := (List.getElem?_eq_some_iff.1 hat).1
  exact (List.getElem?_append_left hlength).trans hat

theorem isAt_pairs (view : Nat) (template : Template) :
    Pairs Render ((inOrder e m₀ templates).Holds (IsAt view template)) :=
  Simulation.Holds.pairs (isAt_lasts e m₀ templates view template)

end

variable {e : Engine} {m₀ : Memory} {templates : List Template}
variable {known : List Template} {s s' : Session} {m m' : Memory} {A : List Template → Prop}

namespace InOrder

theorem of_eq (h : InOrder e m₀ templates known s m)
    (hviews : s'.views.map View.shape = s.views.map View.shape)
    (hfunctions : s'.functions = s.functions) (hmacros : s'.macros = s.macros) :
    InOrder e m₀ templates known s' m where
  views := by
    have hmap := congrArg (List.map Prod.fst) hviews
    rw [List.map_map, List.map_map] at hmap
    exact hmap.trans h.views
  among := h.among
  functions := by
    rw [hfunctions]
    exact h.functions
  macros := by
    rw [hmacros]
    exact h.macros
  asked := h.asked

theorem path (h : InOrder e m₀ templates known s m) {view : Nat} {template : Template}
    (hat : IsAt view template known) : s.views.path view = template.path := by
  unfold IsAt at hat
  rw [← h.views, List.getElem?_map, Option.map_eq_some_iff] at hat
  obtain ⟨v, hv, rfl⟩ := hat
  rw [Views.path, hv]

/-- A further view, of one of the templates. -/
theorem addView (h : InOrder e m₀ templates known s m) {template : Template}
    (htemplate : template ∈ templates) (parent : Option Nat) :
    InOrder e m₀ templates (known ++ [template]) (s.addView template parent) m where
  views := by simp [Session.addView, h.views]
  among other hother := by
    rcases List.mem_append.1 hother with hother | hother
    · exact h.among other hother
    · rwa [List.mem_singleton.1 hother]
  functions := h.functions
  macros name body hbody := by
    obtain ⟨template, t, hview, ht⟩ := h.macros name body hbody
    exact ⟨template, t, isAt_lasts e m₀ templates _ _
      (List.prefix_append _ _) hview, ht⟩
  asked := h.asked

theorem defineMacro (h : InOrder e m₀ templates known s m) {name : String} {view : Nat}
    {template : Template} {t : Tag} (hat : IsAt view template known) (ht : t ∈ template.root.tags)
    (hfind : template.find? t.id = some t) (hname : t.directives.macroName = some name) :
    InOrder e m₀ templates known (s.defineMacro name ⟨view, t.id⟩) m :=
  { h with
    macros := Table.forall_put ⟨template, t, hat, ht, hfind, hname⟩ h.macros }

theorem lookedUp (h : InOrder e m₀ templates known s m) {name : String} {f : Function}
    (hf : e.function? name = some f) : InOrder e m₀ templates known (s.lookedUp name f) m :=
  { h with functions := Session.functions_lookedUp hf h.functions }

theorem start (data : Value) (language : Option String) (m : Memory) :
    InOrder e m templates [] (.start data language) m where
  views := rfl
  among _ h := by cases h
  functions _ _ h := by cases h
  macros _ _ h := by cases h
  asked := .refl m

end InOrder

-- ---------------------------------------------------------------------------
-- Steps
-- ---------------------------------------------------------------------------

/-- The step keeps to the order, where the condition holds, and does not run out of depth. -/
abbrev Orderly (e : Engine) (m₀ : Memory) (templates : List Template) (A : List Template → Prop)
    {α : Type} (x : Render α) : Prop := (inOrder e m₀ templates).Holds A x x

/-- A render in order is a render beside itself, if the functions of the host end. -/
theorem inOrder_isAlone (hfinite : ∀ factory ∈ e.functions, ∀ name f, factory name = some f →
    Function.IsFinite f) :
    (inOrder e m₀ templates).IsAlone e (InOrder e m₀ templates) where
  rel := .rfl
  fault _ := ⟨rfl, nofun⟩
  called {name f} hf anchor args stop hstop := by
    refine ⟨rfl, ?_⟩
    rintro rfl
    exact Engine.function?_induction hfinite BuiltIn.call_isFinite hf anchor args hstop
  functions horder := horder.functions
  lookedUp horder _ _ hf := horder.lookedUp hf
  same horder hviews hfunctions hmacros := horder.of_eq (congrArg _ hviews) hfunctions hmacros
  parsed horder exprs := { horder with asked := horder.asked.parsed exprs }
  loadDictionary horder language file :=
    { horder with asked := horder.asked.loadDictionary language file }

theorem orderly_modify {f : Session → Session}
    (hviews : ∀ s, (f s).views.map View.shape = s.views.map View.shape)
    (hfunctions : ∀ s, (f s).functions = s.functions) (hmacros : ∀ s, (f s).macros = s.macros) :
    Orderly e m₀ templates A (modify f) := by
  refine Simulation.holds_modify_self ?_
  rintro known _ _ s m ⟨rfl, rfl, horder⟩
  exact ⟨rfl, rfl, horder.of_eq (hviews _) (hfunctions _) (hmacros _)⟩

section

variable (hlasts : (inOrder e m₀ templates).Lasts A)

include hlasts

theorem orderly_along (hfinite : ∀ factory ∈ e.functions, ∀ name f, factory name = some f →
    Function.IsFinite f) (view : Nat) :
    Along e view view Eq ((inOrder e m₀ templates).Holds A) :=
  (inOrder_isAlone hfinite).along hlasts view

theorem orderly_dictionary (hfinite : ∀ factory ∈ e.functions, ∀ name f, factory name = some f →
    Function.IsFinite f) (view : Nat) (t : Tag) (file : String) (name source : Option String) :
    Orderly e m₀ templates A (dictionary e view t file name source) :=
  (inOrder_isAlone hfinite).dictionary hlasts view t file name source fun d _ s _ horder _ =>
    horder.of_eq (s.views.map_shape_attach name d view) rfl rfl

end

end Render

end XmlTemplate
