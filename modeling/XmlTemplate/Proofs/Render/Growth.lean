import XmlTemplate.Proofs.Render.Keep

/-!
# What a render leaves behind

While a tag is rendered, frames, walks and the arguments of macros come and go, and through
nested walks, macros, inclusions and plugs any of them may be under way. At the end of a tag all
of this is undone: the session has the frames and walks it started with, and everything else has
only been added to. The root is the exception, since tags may mount data there.
-/

namespace XmlTemplate

/-- The one session follows from the other by steps that have undone all frames and walks of their
own. -/
structure Session.Grows (s s' : Session) : Prop where
  frames : s'.frames = s.frames
  iterations : s'.iterations = s.iterations
  slots : s.slots <+: s'.slots
  warnings : s.warnings <+: s'.warnings
  views : s.views.map View.shape <+: s'.views.map View.shape
  macros : s.macros.keys ⊆ s'.macros.keys
  plugs : s.plugs.keys ⊆ s'.plugs.keys

theorem Table.keys_subset_put (key : String) (a : α) (t : Table α) :
    t.keys ⊆ (t.put key a).keys := by
  rw [Table.keys_put]
  split
  · exact List.Subset.refl _
  · exact List.subset_append_left _ _

namespace Session

theorem Grows.refl (s : Session) : s.Grows s :=
  ⟨rfl, rfl, List.prefix_rfl, List.prefix_rfl, List.prefix_rfl, List.Subset.refl _,
    List.Subset.refl _⟩

theorem Grows.trans {s t u : Session} (h : s.Grows t) (k : t.Grows u) : s.Grows u where
  frames := k.frames.trans h.frames
  iterations := k.iterations.trans h.iterations
  slots := h.slots.trans k.slots
  warnings := h.warnings.trans k.warnings
  views := h.views.trans k.views
  macros := List.Subset.trans h.macros k.macros
  plugs := List.Subset.trans h.plugs k.plugs

theorem Keeps.grows {s s' : Session} (h : s.Keeps s') : s.Grows s' where
  frames := h.frames
  iterations := h.iterations
  slots := h.slots ▸ List.prefix_rfl
  warnings := h.warnings
  views := h.views ▸ List.prefix_rfl
  macros := h.macros ▸ List.Subset.refl _
  plugs := h.plugs ▸ List.Subset.refl _

theorem grows_addView (template : Template) (parent : Option Nat) (s : Session) :
    s.Grows (s.addView template parent) :=
  { Grows.refl s with
    views := by
      simp only [addView, List.map_append]
      exact List.prefix_append _ _ }

theorem grows_defineMacro (name : String) (body : MacroBody) (s : Session) :
    s.Grows (s.defineMacro name body) :=
  { Grows.refl s with macros := Table.keys_subset_put name body s.macros }

theorem grows_recordSlot (name : String) (s : Session) : s.Grows (s.recordSlot name) :=
  { Grows.refl s with slots := List.prefix_append _ _ }

theorem grows_plug (name content : String) (append : Bool) (s : Session) :
    s.Grows (s.plug name content append) :=
  { Grows.refl s with plugs := Table.keys_subset_put name _ s.plugs }

end Session

namespace Render

/-- Whenever the step ends, the session has grown. -/
abbrev Growing (x : Render α) : Prop := Steps Session.Grows x

theorem growing_composes : Composes Render Growing :=
  steps_composes Session.Grows.refl Session.Grows.trans

theorem Steps.growing {x : Render α} (h : Keeping x) : Growing x :=
  fun s _ _ _ _ hx => (h s hx).grows

variable (e : Engine)

theorem growing_local : Local e Growing := (keeping_local e).mono growing_composes Steps.growing

section

variable {inner : Renderer} (hinner : ∀ t view suppressed, Growing (inner t view suppressed))
variable (view : Nat)

include hinner

theorem growing_finish (t : Tag) (key text : String) :
    Growing (finish e inner view t key text) := by
  apply growing_composes.bind ((growing_local e).fillPlaceholders hinner view t text)
  intro text
  split
  · exact growing_composes.bind (keeping_warnAt _ _).growing fun _ => growing_composes.pure _
  · exact growing_composes.pure _

theorem growing_found (t : Tag) (dict : Option String) (key : String) : Growing (do
    match (← get).views.translate view key dict with
    | .found text => finish e inner view t key text
    | .missingEntry =>
      warnAt (t.place view) fun location => .missingEntry location key
      return key
    | .missingDictionary =>
      failAt (t.place view) fun location => .unknownDictionary location (dict.getD "")) := by
  apply steps_get_bind
  intro s
  split
  · exact growing_finish e hinner view t key _ s
  · exact growing_composes.bind (keeping_warnAt _ _).growing (fun _ => growing_composes.pure _) s
  · exact steps_failAt _ _ s

theorem growing_trans (t : Tag) (key dict source : Option String) :
    Growing (trans e inner view t key dict source) := by
  apply steps_get_bind
  intro s
  split
  · exact growing_composes.bind ((growing_local e).content hinner view t)
      (fun text => growing_finish e hinner view t _ text) s
  · simp only
    split
    · exact growing_composes.bind (growing_composes.pure _)
        (growing_found e hinner view t dict) s
    · exact growing_composes.bind ((growing_local e).content hinner view t)
        (growing_found e hinner view t dict) s

theorem growing_inclusion (t : Tag) (file : String) : Growing (inclusion e inner view t file) := by
  apply steps_get_bind
  intro s
  refine growing_composes.bind (keeping_consult _ _).growing (fun compiled => ?_) s
  apply steps_get_bind
  intro s
  refine stepsFrom_set_bind (R := Session.Grows) Session.Grows.trans (s.grows_addView _ _) ?_
  exact growing_composes.bind (hinner _ _ _) fun _ => growing_composes.pure _

theorem growing_mount (t : Tag) (target : String) (value : Option Directive) :
    Growing (mount e inner view t target value) := by
  unfold mount
  split
  · exact growing_composes.bind ((growing_local e).evaluate _ _) fun _ =>
      steps_modify fun s => (s.keeps_mount _ _).grows
  · exact growing_composes.bind ((growing_local e).content hinner view t) fun _ =>
      steps_modify fun s => (s.keeps_mount _ _).grows

theorem growing_kind (t : Tag) : Growing (kind e inner view t) := by
  have hdone : Growing (pure "" : Render String) := growing_composes.pure ""
  unfold kind
  split
  · exact (growing_local e).element hinner view t
  · exact (growing_local e).element hinner view t
  · exact growing_inclusion e hinner view t _
  · exact (keeping_verbatim e view t _).growing
  · exact hdone
  · exact hdone
  · exact growing_composes.bind (keeping_feed e view t _ _).growing fun _ => hdone
  · exact growing_composes.bind (keeping_dictionary e view t _ _ _).growing fun _ => hdone
  · exact growing_composes.bind (growing_mount e hinner view t _ _) fun _ => hdone
  · exact growing_trans e hinner view t _ _ _

/-! ## Walks -/

theorem grows_of_addItem {t : Tag} {suppressed : Suppressed} {done done' : String}
    {item : Value × Value} {s s' : Session} {m m' : Memory}
    (h : addItem inner view t suppressed done item s m = (.ok (done', s'), m')) :
    s.outside.Grows s'.outside := by
  obtain ⟨fragment, s₁, hrun, -, rfl⟩ := of_addItem_eq_ok h
  have hgrows := hinner _ _ _ _ hrun
  exact { hgrows with
    frames := congrArg List.tail hgrows.frames
    iterations := (congrArg List.tail hgrows.iterations).trans List.tail_modifyHead }

theorem grows_of_foldlM_addItem {t : Tag} {suppressed : Suppressed} {done output : String}
    {items : List (Value × Value)} {s s' : Session} {m m' : Memory}
    (h : items.foldlM (addItem inner view t suppressed) done s m = (.ok (output, s'), m')) :
    s.outside.Grows s'.outside := by
  induction items generalizing done s m with
  | nil =>
    obtain ⟨-, rfl, -⟩ := pure_eq_ok_iff.1 h
    exact .refl _
  | cons item items ih =>
    obtain ⟨done', s₁, m₁, hitem, hrest⟩ := bind_eq_ok_iff.1 h
    exact (grows_of_addItem hinner view hitem).trans (ih hrest)

theorem growing_walk (t : Tag) (d : Directive) (suppressed : Suppressed) :
    Growing (walk e inner view t d suppressed) := by
  intro s m output s' m' h
  obtain ⟨v, s₁, m₁, s₂, hv, hitems, rfl⟩ := of_walk_eq_ok h
  exact ((growing_local e).evaluate _ _ s hv).trans (grows_of_foldlM_addItem hinner view hitems)

/-! ## Macros, slots and plugs -/

theorem growing_macroBody (arguments : Table Value) (body : MacroBody) :
    Growing (macroBody inner arguments body) := by
  intro s m output s' m' h
  rcases of_macroBody_eq_ok h with rfl | ⟨t, fragment, s₁, hrun, rfl⟩
  · exact .refl _
  · have hgrows := hinner _ _ _ _ hrun
    exact { hgrows with
      frames := congrArg List.tail hgrows.frames
      iterations := rfl }

theorem growing_callMacro (t : Tag) (name : String) : Growing (callMacro e inner view t name) := by
  refine growing_composes.bind ((growing_local e).arguments view t) fun arguments =>
    growing_composes.bind ((growing_local e).parameters hinner view t) fun parameters =>
      steps_get_bind fun s => ?_
  split
  · exact growing_macroBody hinner _ _ s
  · exact growing_composes.bind (keeping_warnAt _ _).growing (fun _ => growing_composes.pure _) s

theorem growing_slot (t : Tag) (name : String) : Growing (slot e inner view t name) :=
  growing_composes.bind (steps_modify fun s => s.grows_recordSlot name) fun _ =>
    growing_composes.bind (growing_kind e hinner view t) fun _ => growing_composes.pure _

theorem growing_plug (t : Tag) (name : String) : Growing (plug e inner view t name) :=
  growing_composes.bind (growing_kind e hinner view t) fun output =>
    growing_composes.bind ((growing_local e).flag _ _) fun append =>
      steps_modify fun s => s.grows_plug name output append

/-! ## Tags -/

theorem growing_shown (t : Tag) : Growing (shown e inner view t) := by
  unfold shown
  split
  · exact growing_composes.map some (growing_callMacro e hinner view t _)
  · exact growing_composes.map some (growing_slot e hinner view t _)
  · exact growing_composes.bind (growing_plug e hinner view t _) fun _ => growing_composes.pure _
  · exact growing_composes.map some (growing_kind e hinner view t)

theorem growing_single (t : Tag) (suppressed : Suppressed) :
    Growing (single e inner view t suppressed) := by
  apply growing_composes.bind ((growing_local e).condition view t)
  intro isThere
  split
  · split
    · exact growing_composes.bind (steps_modify fun s => s.grows_defineMacro _ _) fun _ =>
        growing_composes.pure _
    · exact growing_shown e hinner view t
  · exact growing_composes.pure _

theorem growing_tagStep (t : Tag) (suppressed : Suppressed) :
    Growing (tagStep e inner t view suppressed) := by
  unfold tagStep
  split
  · exact growing_composes.map some (growing_walk e hinner view t _ suppressed)
  · exact growing_single e hinner view t suppressed

end

theorem growing_tag (view depth : Nat) (t : Tag) (suppressed : Suppressed) :
    Growing (tag e depth t view suppressed) := by
  induction depth generalizing t view suppressed with
  | zero =>
    intro s m output s' m' h
    cases h
  | succ depth ih =>
    exact growing_tagStep e (fun t view suppressed => ih view t suppressed) view t suppressed

/-- A tag that is rendered leaves the frames and the walks of the session as they were, item counts,
positions and keys included. Slots, warnings and views are only added to, and no macro and no plug
is lost. -/
theorem tag_grows {e : Engine} {depth view : Nat} {t : Tag} {suppressed : Suppressed}
    {s s' : Session} {m m' : Memory} {output : Option String}
    (h : tag e depth t view suppressed s m = (.ok (output, s'), m')) : s.Grows s' :=
  growing_tag e view depth t suppressed s h

/-- A walk over the root whose tag defines a macro with a slot, and calls it with a parameter that
holds a plug. -/
def walkedMacro : Tag :=
  let body : Tag := { (default : Tag) with
    id := 1, name := "b"
    directives := { Directives.none with macroName := some "m", slot := some "s" } }
  let plugged : Tag := { (default : Tag) with
    id := 4, name := "i", directives := { Directives.none with plug := some "s" } }
  let parameter : Tag := { (default : Tag) with
    id := 3, kind := .param "x" none, children := [.child plugged] }
  let call : Tag := { (default : Tag) with
    id := 2, directives := { Directives.none with call := some "m" }
    children := [.child parameter] }
  { (default : Tag) with
    name := "p", directives := { Directives.none with walk := some ⟨"/", .path [.root]⟩ }
    children := [.child body, .child call] }

/-- A session that is about to render `walkedMacro` for two items. -/
def walkedMacroStart : Session :=
  (Session.start (.array [.int 5, .int 7]) none).addView ⟨"page.xml", "x:", walkedMacro, []⟩ none

theorem tag_grows_walkedMacro :
    ∃ output s' m', tag .default 6 walkedMacro 0 .none walkedMacroStart (.ofFiles .empty) =
      (.ok (output, s'), m') ∧ s'.slots = ["s", "s"] ∧ walkedMacroStart.Grows s' := by
  have hrun : ∃ output s' m', tag .default 6 walkedMacro 0 .none walkedMacroStart
      (.ofFiles .empty) = (.ok (output, s'), m') ∧ s'.slots = ["s", "s"] :=
    ⟨_, _, _, rfl, rfl⟩
  obtain ⟨output, s', m', h, hslots⟩ := hrun
  exact ⟨output, s', m', h, hslots, tag_grows h⟩

end Render

end XmlTemplate
