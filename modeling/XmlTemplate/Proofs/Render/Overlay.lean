import XmlTemplate.Proofs.Function.BuiltIn
import XmlTemplate.Proofs.Render.Recall
import XmlTemplate.Proofs.Render.Simulation
import XmlTemplate.Proofs.Template.Matching

/-!
# Arguments over the data and in it

Two renders go over a tag side by side. The first one has arguments in a frame over the data, and
the second one has them among the fields of the data. The frames of items on top are the same. Paths
that start with a field of what is in sight, or in a walk with the item, lead to the same values.
-/

namespace XmlTemplate

/-- The table has the entries of one table, and those of another one under all other keys. -/
def Table.Overlays (top bottom whole : Table α) : Prop :=
  ∀ key, whole.get? key = (top.get? key).or (bottom.get? key)

-- ---------------------------------------------------------------------------
-- Bodies
-- ---------------------------------------------------------------------------

/-- What a path may start with: the name of a field, and in a walk also the item. -/
def Session.IsNear (inWalk : Bool) (key : String) : Prop :=
  key ≠ "/" ∧ key ≠ ".." ∧ (key = "." → inWalk = true)

namespace Tag

/-- What is in the tag is in a walk. The walk of a tag that its parent takes in is not done. -/
def isInWalk (outer : Bool) (t : Tag) : Bool :=
  outer || t.directives.walk.isSome && !t.kind.belongsToParent

/-- The tag only uses what is at hand: it is an element, a wrapper or an attribute, it neither
defines nor calls a macro, its paths start near, and so does all in it. -/
inductive IsBody : Bool → Tag → Prop
  | intro {inWalk : Bool} {t : Tag}
      (hkind : t.kind = .element ∨ t.kind = .control ∨ ∃ name value, t.kind = .attr name value)
      (hundefined : t.directives.macroName = none) (hcall : t.directives.call = none)
      (hwalk : ∀ d ∈ t.directives.walk, d.expr.StartsWithin (Session.IsNear inWalk))
      (hwithin : t.StartsWithin (Session.IsNear (t.isInWalk inWalk)))
      (hchildren : ∀ c, .child c ∈ t.children → IsBody (t.isInWalk inWalk) c) : IsBody inWalk t

/-- The tags are the same one of a body. -/
def IsSameBody (inWalk : Bool) (t t' : Tag) : Prop := t.IsBody inWalk ∧ t.IsCopy t'

variable {inWalk : Bool} {t t' : Tag}

theorem IsSameBody.alike (h : t.IsSameBody inWalk t') :
    t.Alike (fun _ _ => True) (IsSameBody (t.isInWalk inWalk)) t' := by
  obtain ⟨⟨_, _, _, _, _, hchildren⟩, hcopy⟩ := h
  exact (isCopy_iff.1 hcopy).imp fun c _ hc _ hcopy => ⟨hchildren c hc, hcopy⟩

/-- What a tag of a body is to its parent. -/
theorem IsSameBody.child (h : t.IsSameBody inWalk t') :
    t.kind.belongsToParent = false ∧ t'.kind.belongsToParent = false ∨
      t.Alike (fun _ _ => True) (IsSameBody inWalk) t' ∧
        t.StartsWithin (Session.IsNear inWalk) := by
  have halike := h.alike
  cases hbelongs : t.kind.belongsToParent with
  | false => exact .inl ⟨rfl, by rw [halike.kind, hbelongs]⟩
  | true =>
    have hin : t.isInWalk inWalk = inWalk := by simp [isInWalk, hbelongs]
    obtain ⟨⟨_, _, _, _, hwithin, _⟩, -⟩ := h
    rw [hin] at halike hwithin
    exact .inr ⟨halike, hwithin⟩

end Tag

namespace Render

-- ---------------------------------------------------------------------------
-- States
-- ---------------------------------------------------------------------------

/-- The states of the two renders, under the frames of the items. -/
structure Overlaid (e : Engine) (language : Option String) (all whole : Table Value)
    (items : List Value) (s : Session) (m : Memory) (s' : Session) (m' : Memory) : Prop where
  frames : s.frames = items ++ [.object all]
  frames' : s'.frames = items
  root : ∃ under : Table Value, s.root = .object under ∧ all.Overlays under whole
  root' : s'.root = .object whole
  iterations : s'.iterations = s.iterations
  slots : s'.slots = s.slots
  plugs : s'.plugs = s.plugs
  calls : s'.calls = s.calls
  recalls : Recalls e language s m
  recalls' : Recalls e language s' m'

/-- The renders of a body with arguments over the data and with arguments in it. -/
def overlaid (e : Engine) (language : Option String) (all whole : Table Value)
    (items : List Value) : Simulation where
  World := Unit
  le _ _ := True
  refl _ := trivial
  trans _ _ := trivial
  Rel _ := Overlaid e language all whole items
  Stops := Stop.Like
  first := False
  second := False

/-- The steps end alike under the frames of the items. -/
abbrev Agreeing (e : Engine) (language : Option String) (all whole : Table Value)
    (items : List Value) {α : Type} (x y : Render α) : Prop :=
  (overlaid e language all whole items).Holds (fun _ => True) x y

variable {e : Engine} {language : Option String} {all whole : Table Value} {items : List Value}
variable {s s' : Session} {m m' : Memory} {inWalk : Bool}

namespace Overlaid

/-- What is near is the same in both renders. -/
theorem lookup_eq (h : Overlaid e language all whole items s m s' m')
    (hitems : inWalk = true → items ≠ []) {key : String} (hkey : Session.IsNear inWalk key) :
    s'.lookup key = s.lookup key := by
  obtain ⟨hroot, hparent, hcurrent⟩ := hkey
  obtain ⟨under, hunder, hoverlays⟩ := h.root
  unfold Session.lookup
  rw [h.frames, h.frames', h.root', hunder]
  simp only [hroot, hparent, if_false]
  by_cases hhere : key = "."
  · obtain ⟨v, rest, rfl⟩ := List.exists_cons_of_ne_nil (hitems (hcurrent hhere))
    simp [hhere]
  · have hfields : [Value.object all, .object under].findSome? (Session.field? key) =
        whole.get? key := by
      rw [hoverlays key]
      simp only [List.findSome?, Session.field?]
      cases all.get? key with
      | none => cases under.get? key <;> rfl
      | some v => rfl
    have hwhole : [Value.object whole].findSome? (Session.field? key) = whole.get? key := by
      simp only [List.findSome?, Session.field?]
      cases whole.get? key <;> rfl
    simp only [hhere, if_false, List.append_assoc, List.cons_append, List.nil_append,
      List.findSome?_append, hfields, hwhole]

theorem lookedUp (h : Overlaid e language all whole items s m s' m') {name : String}
    {f : Function} (hf : e.function? name = some f) :
    Overlaid e language all whole items (s.lookedUp name f) m (s'.lookedUp name f) m' :=
  { h with
    recalls := { h.recalls with functions := Session.functions_lookedUp hf h.recalls.functions }
    recalls' :=
      { h.recalls' with functions := Session.functions_lookedUp hf h.recalls'.functions } }

end Overlaid

theorem overlaid_pairs :
    Pairs Render (Agreeing e language all whole items) :=
  Simulation.Holds.pairs fun _ _ => trivial

/-- A change of slots, plugs and walks. -/
theorem overlaid_modify {f : Session → Session}
    (hsame : ∀ s, (f s).frames = s.frames ∧ (f s).root = s.root ∧ (f s).calls = s.calls ∧
      (f s).language = s.language ∧ (f s).functions = s.functions)
    (hchanged : ∀ s s' : Session, s'.iterations = s.iterations → s'.slots = s.slots →
      s'.plugs = s.plugs → (f s').iterations = (f s).iterations ∧ (f s').slots = (f s).slots ∧
        (f s').plugs = (f s).plugs) :
    Agreeing e language all whole items (modify f) (modify f) := by
  refine Simulation.holds_modify_self
    fun _ s m s' m' (h : Overlaid e language all whole items s m s' m') => ?_
  obtain ⟨hframes, hroot, hcalls, hlanguage, hfunctions⟩ := hsame s
  obtain ⟨hframes', hroot', hcalls', hlanguage', hfunctions'⟩ := hsame s'
  obtain ⟨hiterations, hslots, hplugs⟩ := hchanged s s' h.iterations h.slots h.plugs
  exact
    { frames := hframes.trans h.frames
      frames' := hframes'.trans h.frames'
      root := by
        rw [hroot]
        exact h.root
      root' := hroot'.trans h.root'
      iterations := hiterations
      slots := hslots
      plugs := hplugs
      calls := by rw [hcalls, hcalls', h.calls]
      recalls := h.recalls.of_eq hlanguage hroot hfunctions rfl
      recalls' := h.recalls'.of_eq hlanguage' hroot' hfunctions' rfl }

-- ---------------------------------------------------------------------------
-- Steps
-- ---------------------------------------------------------------------------

/-- A step in the frame of an item. -/
theorem overlaid_inItem (item : Value × Value) {x y : Render α}
    (h : Agreeing e language all whole (item.2 :: items) x y) :
    Agreeing e language all whole items (inItem item x) (inItem item y) := by
  intro _ s m s' m' (hstates : Overlaid e language all whole items s m s' m') _
  have hentered : Overlaid e language all whole (item.2 :: items) (s.enterItem item) m
      (s'.enterItem item) m' :=
    { hstates with
      frames := by
        rw [Session.enterItem, hstates.frames]
        rfl
      frames' := by rw [Session.enterItem, hstates.frames']
      iterations := by rw [Session.enterItem, Session.enterItem, hstates.iterations]
      recalls := hstates.recalls.of_eq rfl rfl rfl rfl
      recalls' := hstates.recalls'.of_eq rfl rfl rfl rfl }
  have hends := h (w := ()) hentered trivial
  rw [inItem_apply, inItem_apply]
  generalize x (s.enterItem item) m = r at hends
  generalize y (s'.enterItem item) m' = r' at hends
  cases hends with
  | ok _ hrel =>
    have hleft : Overlaid e language all whole (item.2 :: items) _ _ _ _ := hrel
    refine .ok (show (overlaid e language all whole items).le () () from trivial) ?_
    exact
      { hleft with
        frames := congrArg List.tail hleft.frames
        frames' := congrArg List.tail hleft.frames'
        recalls := hleft.recalls.of_eq rfl rfl rfl rfl
        recalls' := hleft.recalls'.of_eq rfl rfl rfl rfl }
  | stop hlike => exact .stop hlike
  | first h => exact h.elim
  | second h => exact h.elim

section

variable (hfunctions : ∀ factory ∈ e.functions, ∀ name f, factory name = some f →
  Function.IgnoresPlace f)

include hfunctions

/-- Expressions end alike, wherever they are. -/
theorem overlaid_atPlaces (p p' : Place) :
    (overlaid e language all whole items).AtPlaces e (fun _ => True) p p' := by
  refine Simulation.atPlaces_of_ignoresPlace hfunctions id ?_ ?_ ?_ ?_ p p'
  · intro _ s m s' m' (h : Overlaid e language all whole items s m s' m')
    rw [Session.iteration, h.iterations, h.recalls.language, h.recalls'.language]
    exact ⟨rfl, rfl, h.calls⟩
  · exact fun _ s m s' m' (h : Overlaid e language all whole items s m s' m') name f =>
      ⟨h.recalls.functions name f, h.recalls'.functions name f⟩
  · exact fun _ s m s' m' (h : Overlaid e language all whole items s m s' m') _ _ hf =>
      h.lookedUp hf
  · intro _ s m s' m' (h : Overlaid e language all whole items s m s' m')
    exact
      { h with
        calls := congrArg (· + 1) h.calls
        recalls := h.recalls.of_eq rfl rfl rfl rfl
        recalls' := h.recalls'.of_eq rfl rfl rfl rfl }

theorem overlaid_beside (view view' : Nat) (hitems : inWalk = true → items ≠ []) :
    Beside e view view' (fun _ _ => True) (Session.IsNear inWalk)
      (Agreeing e language all whole items) where
  toPairs := overlaid_pairs
  evaluate _ expr hexpr :=
    (overlaid_atPlaces hfunctions _ _).evaluate (fun _ _ => trivial)
      (fun _ _ _ _ _ h _ _ hkey => Overlaid.lookup_eq h hitems hkey) hexpr
  evaluateAttribute {line line'} _ raw hraw := by
    intro _ s m s' m' (h : Overlaid e language all whole items s m s' m') _
    obtain ⟨n, hrecalls, hparse⟩ :=
      parse_apply_of_recalls h.recalls ⟨view, line⟩ (Text.unescape raw)
    obtain ⟨n', hrecalls', hparse'⟩ :=
      parse_apply_of_recalls h.recalls' ⟨view', line'⟩ (Text.unescape raw)
    rw [evaluateAttribute, evaluateAttribute, bind_apply, bind_apply, hparse, hparse']
    cases hresult : Expr.parse (Text.unescape raw) with
    | ok expr =>
      have hknown : Overlaid e language all whole items s n s' n' :=
        { h with recalls := hrecalls, recalls' := hrecalls' }
      exact (overlaid_atPlaces hfunctions _ _).evaluate (fun _ _ => trivial)
        (fun _ _ _ _ _ h _ _ hkey => Overlaid.lookup_eq h hitems hkey) (hraw expr hresult)
        (w := ()) hknown trivial
    | error problem => exact .stop rfl
  failAt _ f hf := (overlaid_atPlaces hfunctions _ _).failAt hf

end

-- ---------------------------------------------------------------------------
-- Tags
-- ---------------------------------------------------------------------------

/-- Tags of bodies are rendered alike, in any walks that they need. -/
def RendersBodies (e : Engine) (language : Option String) (all whole : Table Value)
    (view view' : Nat) (inner inner' : Renderer) : Prop :=
  ∀ {inWalk : Bool} {items : List Value} {t t' : Tag} {suppressed : Suppressed},
    t.IsSameBody inWalk t' → t.kind.belongsToParent = false →
    (inWalk = true → items ≠ []) → (suppressed.walk = true → items ≠ []) →
    Agreeing e language all whole items (inner t view suppressed) (inner' t' view' suppressed)

section

variable (hfunctions : ∀ factory ∈ e.functions, ∀ name f, factory name = some f →
  Function.IgnoresPlace f)
variable {view view' : Nat} {inner inner' : Renderer} {t t' : Tag} {suppressed : Suppressed}

include hfunctions

/-- What comes of the tag itself. -/
theorem overlaid_kind (hinner : RendersBodies e language all whole view view' inner inner')
    (hbody : t.IsSameBody inWalk t') (hbelongs : t.kind.belongsToParent = false)
    (hitems : t.isInWalk inWalk = true → items ≠ []) :
    Agreeing e language all whole items (kind e inner view t) (kind e inner' view' t') := by
  have halike := hbody.alike
  obtain ⟨⟨hkind, -, -, -, hwithin, -⟩, -⟩ := hbody
  have helement := (overlaid_beside hfunctions view view' hitems).element
    (fun hc => hc.child) (fun hc hchild => overlaid_pairs.map _ (hinner hc hchild hitems nofun))
    halike hwithin
  unfold Render.kind
  rw [halike.kind]
  rcases hkind with hkind | hkind | ⟨name, value, hkind⟩
  · simpa only [hkind] using helement
  · simpa only [hkind] using helement
  · rw [hkind] at hbelongs
    cases hbelongs

theorem overlaid_single (hinner : RendersBodies e language all whole view view' inner inner')
    (hbody : t.IsSameBody inWalk t') (hbelongs : t.kind.belongsToParent = false)
    (hitems : t.isInWalk inWalk = true → items ≠ []) :
    Agreeing e language all whole items (single e inner view t suppressed)
      (single e inner' view' t' suppressed) := by
  have hbeside : Beside e view view' _ _ (Agreeing e language all whole items) :=
    overlaid_beside hfunctions view view' hitems
  have hkinds := overlaid_kind hfunctions hinner hbody hbelongs hitems
  have halike := hbody.alike
  obtain ⟨⟨-, hundefined, hcall, -, hwithin, -⟩, -⟩ := hbody
  refine hbeside.single halike hwithin (fun name hname => ?_)
    (hbeside.shown halike hwithin (fun name => ?_) (fun name output append => ?_)
      (fun name hname => ?_) hkinds)
  · rw [hundefined] at hname
    cases hname
  · refine overlaid_modify (fun _ => ⟨rfl, rfl, rfl, rfl, rfl⟩)
      fun s s' hiterations hslots hplugs => ⟨hiterations, ?_, hplugs⟩
    rw [Session.recordSlot, Session.recordSlot, hslots]
  · refine overlaid_modify (fun _ => ⟨rfl, rfl, rfl, rfl, rfl⟩)
      fun s s' hiterations hslots hplugs => ⟨hiterations, hslots, ?_⟩
    rw [Session.plug, Session.plug, hplugs]
  · rw [hcall] at hname
    cases hname

theorem RendersBodies.tagStep (h : RendersBodies e language all whole view view' inner inner') :
    RendersBodies e language all whole view view' (tagStep e inner) (tagStep e inner') := by
  intro inWalk items t t' suppressed hbody hbelongs hitems hsuppressed
  have halike := hbody.alike
  unfold Render.tagStep
  rw [halike.directives]
  split
  · rename_i d hd _
    obtain ⟨⟨-, -, -, hwalk, -, -⟩, -⟩ := id hbody
    have hbeside : Beside e view view' _ _ (Agreeing e language all whole items) :=
      overlaid_beside hfunctions view view' hitems
    refine overlaid_pairs.map some (hbeside.walk halike (hwalk d hd) (fun count => ?_) ?_
      fun item => overlaid_inItem item (overlaid_pairs.map _ (h hbody hbelongs
        (fun _ => List.cons_ne_nil _ _) fun _ => List.cons_ne_nil _ _)))
    · refine overlaid_modify (fun _ => ⟨rfl, rfl, rfl, rfl, rfl⟩)
        fun s s' hiterations hslots hplugs => ⟨?_, hslots, hplugs⟩
      rw [Session.startWalk, Session.startWalk, hiterations]
    · refine overlaid_modify (fun _ => ⟨rfl, rfl, rfl, rfl, rfl⟩)
        fun s s' hiterations hslots hplugs => ⟨?_, hslots, hplugs⟩
      rw [Session.outside, Session.outside, hiterations]
  · rename_i hnot
    refine overlaid_single hfunctions h hbody hbelongs fun hin => ?_
    rw [Tag.isInWalk, hbelongs, Bool.or_eq_true] at hin
    rcases hin with hin | hin
    · exact hitems hin
    · -- The tag is walked, so that it is rendered for an item here.
      obtain ⟨d, hd⟩ := Option.isSome_iff_exists.1 (by simpa using hin)
      exact hsuppressed (Bool.not_eq_false _ ▸ hnot d hd)

theorem rendersBodies_tag (depth : Nat) :
    RendersBodies e language all whole view view' (tag e depth) (tag e depth) := by
  induction depth with
  | zero => exact fun _ _ _ _ _ _ _ _ _ _ _ => .stop trivial
  | succ depth ih => exact RendersBodies.tagStep hfunctions ih

end

end Render

end XmlTemplate
