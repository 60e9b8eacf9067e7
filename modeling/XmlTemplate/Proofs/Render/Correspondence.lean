import XmlTemplate.Proofs.Render.Follow

/-!
# Renders of tags follow drawings of tags

Each step of rendering a tag follows the step of drawing it, if the renderings of the tags within
do. By induction on the depth, whole tags follow.
-/

namespace XmlTemplate

open Slot (Layout Drawn Plugging)

namespace Render

/-- A text, or nothing, is the one of a tree, or of nothing. -/
def DrawnOption (slots : List String) (a : Option String) (b : Option Layout) : Prop :=
  Drawn slots (a.getD "") (b.getD .nil)

variable (e : Engine)

theorem sameSlots_mount (key : String) (v : Value) (s : Session) : s.SameSlots (s.mount key v) :=
  (s.keeps_mount key v).sameSlots

theorem follows_plain {slots : List String} {a : String} {l : Layout} (h : Drawn slots a l) :
    Follows Same (pure a) (Draw.plain l) := by
  unfold Draw.plain
  split
  · rename_i text htext
    exact follows_pure (h.eq_of_text? htext)
  · exact follows_throw _ _

/-- A step whose text becomes a tree without slots. -/
theorem follows_text (slots : List String) {x : Render String} (hx : Aside x) :
    Follows (fun more => Drawn (slots ++ more)) x (do
      let text ← x
      return .ofText text) := by
  refine follows_bind_pure (follows_lift hx (same_refl [])) ?_
  rintro more text _ rfl
  exact .ofText _ text

theorem follows_filtered (view : Nat) {slots : List String} {t : Tag} {text : String} {l : Layout}
    (h : Drawn slots text l) :
    Follows (fun more => Drawn (slots ++ more)) (match t.directives.filter with
      | some name => filter e (t.place view) name text
      | none => pure text : Render String) (Draw.filtered e view t l) := by
  unfold Draw.filtered
  cases t.directives.filter with
  | none => exact follows_pure (h.mono [])
  | some name =>
    -- Without slots the tree is the text that is filtered.
    simp only
    rw [Draw.plain]
    cases htext : l.text? with
    | none => exact follows_throw _ _
    | some u =>
      obtain rfl := h.eq_of_text? htext
      exact follows_text slots ((aside_local e).filter _ _ _)

theorem follows_elementEnd (view : Nat) (t : Tag) {slots : List String} {text : String}
    {l : Layout} (h : Drawn slots text l) :
    Follows (fun more => Drawn (slots ++ more)) (elementEnd e view t text)
      (Draw.elementEnd e view t l) := by
  apply follows_lift_bind ((aside_local e).flag _ _)
  intro isVoid
  rw [h.isEmpty_eq]
  split
  · exact follows_pure (.ofText _ ">")
  · split
    · exact follows_text slots ((aside_local e).emptyEnd view t)
    · refine follows_pure ?_
      have hend := (Drawn.ofText [] ">").append (h.append (.ofText [] ("</" ++ t.name ++ ">")))
      simpa only [String.append_assoc, List.nil_append] using hend

theorem drawn_joined {slots more : List String} {done fragment : String} {l l' : Layout} (t : Tag)
    (h : Drawn slots done l) (h' : Drawn more fragment l') :
    Drawn (slots ++ more) (joined t done fragment) (Draw.joined t l l') := by
  rw [joined, Draw.joined, h.isEmpty_eq, h'.isEmpty_eq]
  split
  · exact h.mono more
  · split
    · exact h'.mono_right slots
    · have hindent := (h.append (.ofText [] (t.indent.getD ""))).append h'
      rwa [List.append_nil] at hindent

section

variable {inner : Renderer} {drawer : Drawer}
  (hinner : ∀ t view suppressed, Follows DrawnOption (inner t view suppressed)
    (drawer t view suppressed))
variable (view : Nat)

include hinner

/-! ## Content and parameters -/

theorem follows_content (t : Tag) :
    Follows Drawn (content inner view t) (Draw.content drawer view t) := by
  refine follows_foldlM (V := Drawn) ?_ (.nil []) t.children
  intro slots done l node h
  cases node with
  | text text => exact follows_pure (h.append (.ofText [] text))
  | child child =>
    simp only [addNode, Draw.addNode]
    split
    · exact follows_pure (by rwa [List.append_nil])
    · refine follows_bind (hinner child view .none) fun more a b hab => follows_pure ?_
      rw [List.append_nil]
      exact h.append hab

theorem follows_plainContent (t : Tag) :
    Follows Same (content inner view t) (Draw.plainContent drawer view t) := by
  rw [← bind_pure (content inner view t)]
  exact follows_bind (follows_content hinner view t) fun slots a l h => follows_plain h

theorem follows_addParameter (done : Table Value) (child : Tag) :
    Follows Same (addParameter e inner view done child)
      (Draw.addParameter e drawer view done child) := by
  unfold addParameter Draw.addParameter
  cases child.kind with
  | param name value =>
    apply follows_lift_bind ((aside_local e).condition view child)
    intro isThere
    split
    · cases value with
      | some d =>
        exact follows_lift_bind ((aside_local e).evaluate _ _) fun v =>
          follows_pure (same_refl [] _)
      | none =>
        refine follows_bind (follows_plainContent hinner view child) ?_
        rintro slots text _ rfl
        exact follows_pure (same_refl _ _)
    · exact follows_pure (same_refl [] _)
  | _ => exact follows_pure (same_refl [] _)

theorem follows_parameters (t : Tag) :
    Follows Same (parameters e inner view t) (Draw.parameters e drawer view t) := by
  refine follows_foldlM (V := Same) ?_ (same_refl [] _) t.childTags
  rintro slots done _ child rfl
  exact follows_addParameter e hinner view done child

theorem follows_addSet (done : Table String) (child : Tag) :
    Follows Same (addSet e inner view done child) (Draw.addSet e drawer view done child) := by
  unfold addSet Draw.addSet
  cases child.kind with
  | attr name value =>
    apply follows_lift_bind ((aside_local e).condition view child)
    intro isThere
    split
    · cases value.or child.directives.text with
      | some d =>
        exact follows_lift_bind ((aside_local e).evaluateText _ _) fun v =>
          follows_pure (same_refl [] _)
      | none =>
        refine follows_bind (follows_plainContent hinner view child) ?_
        rintro slots text _ rfl
        exact follows_pure (same_refl _ _)
    · exact follows_pure (same_refl [] _)
  | _ => exact follows_pure (same_refl [] _)

theorem follows_attributes (t : Tag) :
    Follows Same (attributes e inner view t) (Draw.attributes e drawer view t) := by
  apply follows_lift_bind ((aside_local e).foldlM ((aside_local e).addPlain _) _ _)
  intro plain
  refine follows_foldlM (V := Same) ?_ (same_refl [] _) t.childTags
  rintro slots done _ child rfl
  exact follows_addSet e hinner view done child

/-! ## Translations -/

theorem follows_fillPlaceholders (t : Tag) (text : String) :
    Follows Same (fillPlaceholders e inner view t text)
      (Draw.fillPlaceholders e drawer view t text) := by
  unfold fillPlaceholders Draw.fillPlaceholders
  simp only
  split
  · refine follows_bind (follows_parameters e hinner view t) ?_
    rintro slots parameters _ rfl
    exact follows_lift_bind
      ((aside_local e).foldlM ((aside_local e).addPlaceholder view t parameters) _ _)
      fun known => follows_pure (same_refl _ _)
  · exact follows_pure (same_refl _ _)

theorem follows_finish (t : Tag) (key text : String) :
    Follows Same (finish e inner view t key text) (Draw.finish e drawer view t key text) := by
  refine follows_bind (follows_fillPlaceholders e hinner view t text) ?_
  rintro slots text _ rfl
  split
  · exact follows_lift_bind (keeping_warnAt _ _).aside fun _ => follows_pure (same_refl _ _)
  · exact follows_pure (same_refl _ _)

theorem follows_translated (t : Tag) (dict : Option String) (key : String) :
    Follows Same (do
      match (← get).views.translate view key dict with
      | .found text => finish e inner view t key text
      | .missingEntry =>
        warnAt (t.place view) fun location => .missingEntry location key
        return key
      | .missingDictionary =>
        failAt (t.place view) fun location => .unknownDictionary location (dict.getD ""))
      (Draw.translated e drawer view t dict key) := by
  apply follows_get_bind
  intro s
  cases s.views.translate view key dict with
  | found text => exact follows_finish e hinner view t key text s
  | missingEntry =>
    exact follows_lift_bind (keeping_warnAt _ _).aside (fun _ => follows_pure (same_refl [] _)) s
  | missingDictionary => exact follows_lift (steps_failAt _ _) (same_refl []) s

theorem follows_trans (t : Tag) (key dict source : Option String) :
    Follows Same (trans e inner view t key dict source)
      (Draw.trans e drawer view t key dict source) := by
  apply follows_get_bind
  intro s
  split
  · refine follows_bind (follows_plainContent hinner view t) ?_ s
    rintro slots text _ rfl
    exact follows_finish e hinner view t _ text
  · cases key with
    | some key => exact follows_translated e hinner view t dict key s
    | none =>
      refine follows_bind (follows_plainContent hinner view t) ?_ s
      rintro slots key _ rfl
      exact follows_translated e hinner view t dict key

/-! ## Kinds of tags -/

theorem follows_body (t : Tag) :
    Follows Drawn (body e inner view t) (Draw.body e drawer view t) := by
  unfold body Draw.body
  cases t.directives.text with
  | some d =>
    exact follows_lift_bind ((aside_local e).evaluateText _ _) fun text =>
      follows_filtered e view (.ofText [] text)
  | none =>
    exact follows_bind (follows_content hinner view t) fun slots text l h =>
      follows_filtered e view h

theorem follows_element (t : Tag) :
    Follows Drawn (element e inner view t) (Draw.element e drawer view t) := by
  have hshown : Follows Drawn (do
      let attributes ← attributes e inner view t
      let text ← body e inner view t
      let rest ← elementEnd e view t text
      return opening t.name attributes ++ rest) (Draw.shownElement e drawer view t) := by
    refine follows_bind (follows_attributes e hinner view t) ?_
    rintro slots attributes _ rfl
    apply follows_bind (follows_body e hinner view t)
    intro more text l h
    refine follows_bind (follows_elementEnd e view t h) fun last rest l' h' => follows_pure ?_
    have hwhole := (Drawn.ofText slots (opening t.name attributes)).append h'
    rwa [List.append_nil]
  unfold element Draw.element
  cases t.kind with
  | control => exact follows_body e hinner view t
  | _ =>
    apply follows_lift_bind ((aside_local e).flag _ _)
    intro isMute
    dsimp only
    split
    · exact follows_body e hinner view t
    · exact hshown

theorem follows_inclusion (t : Tag) (file : String) :
    Follows Drawn (inclusion e inner view t file) (Draw.inclusion e drawer view t file) := by
  apply follows_get_bind
  intro s
  refine follows_lift_bind (keeping_consult _ _).aside (fun compiled => ?_) s
  refine follows_get_bind fun s => followsFrom_set_bind ?_ ?_
  · exact ⟨rfl, rfl⟩
  · refine follows_bind (hinner _ _ _) fun slots output l h => follows_pure ?_
    rwa [List.append_nil]

theorem follows_mount (t : Tag) (target : String) (value : Option Directive) :
    Follows Same (mount e inner view t target value) (Draw.mount e drawer view t target value) := by
  unfold mount Draw.mount
  cases value with
  | some d =>
    exact follows_lift_bind ((aside_local e).evaluate _ _) fun v => follows_modify fun s =>
      sameSlots_mount _ _ s
  | none =>
    refine follows_bind (follows_plainContent hinner view t) ?_
    rintro slots text _ rfl
    exact follows_modify fun s => sameSlots_mount _ _ s

theorem follows_kind (t : Tag) :
    Follows Drawn (kind e inner view t) (Draw.kind e drawer view t) := by
  have hdone (slots : List String) : Follows (fun more => Drawn (slots ++ more)) (pure "")
      (pure .nil) := follows_pure (.nil _)
  unfold kind Draw.kind
  cases t.kind with
  | element | control => exact follows_element e hinner view t
  | inclusion file => exact follows_inclusion e hinner view t file
  | verbatim file =>
    exact follows_text [] (keeping_verbatim e view t file).aside
  | attr | param => exact hdone []
  | feed feedClass target =>
    exact follows_lift_bind (keeping_feed e view t _ _).aside fun _ => hdone []
  | dictionary file name source =>
    exact follows_lift_bind (keeping_dictionary e view t _ _ _).aside fun _ => hdone []
  | mount target value =>
    exact follows_bind (follows_mount e hinner view t target value) fun slots _ _ _ => hdone slots
  | trans key dict source =>
    refine follows_bind_pure (follows_trans e hinner view t key dict source) ?_
    rintro slots text _ rfl
    exact .ofText _ text

/-! ## Walks -/

theorem follows_addItem {t : Tag} {suppressed : Suppressed} {slots : List String} {done : String}
    {l : Layout} (h : Drawn slots done l) (item : Value × Value) :
    Follows (fun more => Drawn (slots ++ more)) (addItem inner view t suppressed done item)
      (Draw.addItem drawer view t suppressed l item) := by
  rw [addItem_eq]
  refine follows_modify_bind ?_ ?_
  · exact fun s => ⟨rfl, rfl⟩
  · apply follows_bind (hinner t view suppressed)
    intro more fragment l' h'
    refine follows_modify_bind ?_ (follows_pure ?_)
    · exact fun s => ⟨rfl, rfl⟩
    · rw [List.append_nil]
      exact drawn_joined t h h'

theorem follows_walk (t : Tag) (d : Directive) (suppressed : Suppressed) :
    Follows Drawn (walk e inner view t d suppressed) (Draw.walk e drawer view t d suppressed) := by
  apply follows_lift_bind ((aside_local e).evaluate _ _)
  intro v
  refine follows_modify_bind ?_ ?_
  · exact fun s => ⟨rfl, rfl⟩
  · refine follows_bind (follows_foldlM (V := Drawn) ?_ (.nil []) (items v)) ?_
    · intro slots done l item h
      exact follows_addItem hinner view h item
    · intro slots output l h
      refine follows_modify_bind ?_ (follows_pure ?_)
      · exact fun s => ⟨rfl, rfl⟩
      · rwa [List.append_nil]

/-! ## Macros, slots and plugs -/

theorem follows_macroBody (arguments : Table Value) (body : MacroBody) :
    Follows Drawn (macroBody inner arguments body) (Draw.macroBody drawer arguments body) := by
  apply follows_get_bind
  intro s
  cases (s.views[body.view]?).bind fun v => v.template.find? body.tag with
  | none => exact follows_pure (.nil []) s
  | some t =>
    refine followsFrom_set_bind ?_ ?_
    · exact ⟨rfl, rfl⟩
    · apply follows_bind (hinner t body.view ⟨false, true⟩)
      intro slots output l h
      refine follows_modify_bind ?_ (follows_pure ?_)
      · exact fun s => ⟨rfl, rfl⟩
      · rwa [List.append_nil]

theorem follows_callMacro (t : Tag) (name : String) :
    Follows Drawn (callMacro e inner view t name) (Draw.callMacro e drawer view t name) := by
  apply follows_lift_bind ((aside_local e).arguments view t)
  intro arguments
  refine follows_bind (follows_parameters e hinner view t) ?_
  rintro slots parameters _ rfl
  apply follows_get_bind
  intro s
  cases s.macros.get? name with
  | some body =>
    refine follows_mono (fun more output l h => ?_) (follows_macroBody hinner _ body) s
    exact h.mono_right slots
  | none =>
    exact follows_lift_bind (keeping_warnAt _ _).aside (fun _ => follows_pure (.nil _)) s

theorem follows_slot (t : Tag) (name : String) :
    Follows Drawn (slot e inner view t name) (Draw.slot e drawer view t name) := by
  refine follows_bind (follows_recordSlot name) ?_
  rintro _ _ _ rfl
  apply follows_bind (follows_kind e hinner view t)
  intro slots output l h
  split
  · rename_i hname
    exact follows_pure (by simpa using h.slot hname)
  · exact follows_throw _ _

theorem follows_plug (t : Tag) (name : String) :
    Follows Same (plug e inner view t name) (Draw.plug e drawer view t name) := by
  apply follows_bind (follows_kind e hinner view t)
  intro slots output l h
  rw [Draw.plain]
  cases htext : l.text? with
  | none => exact follows_throw _ _
  | some text =>
    obtain rfl := h.eq_of_text? htext
    exact follows_lift_bind ((aside_local e).flag _ _) fun append =>
      follows_record ⟨name, output, append⟩

/-! ## Tags -/

theorem follows_shown (t : Tag) :
    Follows DrawnOption (shown e inner view t) (Draw.shown e drawer view t) := by
  unfold shown Draw.shown
  cases t.directives.call with
  | some name => exact follows_map (follows_callMacro e hinner view t name) fun _ _ _ h => h
  | none =>
    cases t.directives.slot with
    | some name => exact follows_map (follows_slot e hinner view t name) fun _ _ _ h => h
    | none =>
      cases t.directives.plug with
      | some name =>
        exact follows_bind (follows_plug e hinner view t name) fun slots _ _ _ =>
          follows_pure (.nil _)
      | none => exact follows_map (follows_kind e hinner view t) fun _ _ _ h => h

theorem follows_single (t : Tag) (suppressed : Suppressed) :
    Follows DrawnOption (single e inner view t suppressed)
      (Draw.single e drawer view t suppressed) := by
  apply follows_lift_bind ((aside_local e).condition view t)
  intro isThere
  split
  · cases t.directives.macroName with
    | none => exact follows_shown e hinner view t
    | some name =>
      cases suppressed.definition with
      | true => exact follows_shown e hinner view t
      | false =>
        refine follows_modify_bind ?_ (follows_pure (.nil _))
        exact fun s => ⟨rfl, rfl⟩
  · exact follows_pure (.nil _)

theorem follows_tagStep (t : Tag) (suppressed : Suppressed) :
    Follows DrawnOption (tagStep e inner t view suppressed)
      (Draw.tagStep e drawer t view suppressed) := by
  unfold tagStep Draw.tagStep
  cases t.directives.walk with
  | none => exact follows_single e hinner view t suppressed
  | some d =>
    cases suppressed.walk with
    | true => exact follows_single e hinner view t suppressed
    | false => exact follows_map (follows_walk e hinner view t d suppressed) fun _ _ _ h => h

end

/-- Rendering a tag goes the same way as drawing it. -/
theorem follows_tag (depth : Nat) (t : Tag) (view : Nat) (suppressed : Suppressed) :
    Follows DrawnOption (tag e depth t view suppressed) (Draw.tag e depth t view suppressed) := by
  induction depth generalizing t view suppressed with
  | zero =>
    intro s
    constructor
    · intro ps m output ps' s' m' _ h
      cases h
    · intro ps m stop m' _ h
      cases h
      rfl
  | succ depth ih => exact follows_tagStep e ih view t suppressed

end Render

end XmlTemplate
