import XmlTemplate.Proofs.Engine.Steady
import XmlTemplate.Proofs.Render.Attachment
import XmlTemplate.Proofs.Render.Order

/-!
# Renderings that a render reaches

While a page is rendered, tags are rendered within each other, each in the session that is there by
then. In all of these sessions views come after the views that include them, and a name of a macro
stands for a tag that defines it, in a view that is there. So a macro that is known has a body.

Which renderings take place in another one is told from outside: those whose outcome can make a
difference to it. A rendering that takes place does, since a stop would be passed on.
-/

namespace XmlTemplate

/-- A rendering of a tag of a view, from a session and a memory on. -/
structure Rendering where
  tag : Tag
  view : Nat
  suppressed : Suppressed
  session : Session
  memory : Memory

/-- What a rendering comes to. -/
def Rendering.outcome (inner : Renderer) (c : Rendering) : Render.Outcome (Option String) :=
  inner c.tag c.view c.suppressed c.session c.memory

open Classical in
/-- A renderer that comes to another outcome in one rendering and to the same in all others. -/
noncomputable def Renderer.replace (inner : Renderer) (c : Rendering)
    (outcome : Render.Outcome (Option String)) : Renderer := fun t view suppressed s m =>
  if c = ⟨t, view, suppressed, s, m⟩ then outcome else inner t view suppressed s m

namespace Render

/-- The second rendering takes place directly in the first one: what it comes to can make a
difference. -/
def Enters (e : Engine) (inner : Renderer) (c c' : Rendering) : Prop :=
  ∃ outcome, (c.outcome (tagStep e (inner.replace c' outcome))).1 ≠ (c.outcome (tagStep e inner)).1

/-- The renderings that take place in the render of a page, with the depths within which they do. -/
inductive Reaches (e : Engine) (template : Template) (data : Value) (language : Option String)
    (m : Memory) (depth : Nat) : Nat → Rendering → Prop
  | root : Reaches e template data language m depth depth
      ⟨template.root, 0, .none, (Session.start data language).addView template none, m⟩
  | within {left : Nat} {c c' : Rendering}
      (h : Reaches e template data language m depth (left + 1) c)
      (henters : Enters e (tag e left) c c') : Reaches e template data language m depth left c'

end Render

open Render

/-- The steps that a rendering of a tag is made of. -/
inductive Rendering.Step (e : Engine) (inner : Renderer) (c : Rendering) :
    {α : Type} → Render α → Prop
  | evaluation (expr : Expr) : Step e inner c (evaluate e (c.tag.place c.view) expr)
  | condition : Step e inner c (condition e c.view c.tag)
  | definition {name : String} (h : c.tag.directives.macroName = some name) :
      Step e inner c (modify (Session.defineMacro name ⟨c.view, c.tag.id⟩))
  | arguments : Step e inner c (arguments e c.view c.tag)
  | parameters : Step e inner c (parameters e inner c.view c.tag)
  | invocation (name : String) (all : Table Value) :
      Step e inner c (invoke inner c.view c.tag name all)
  | slot (name : String) : Step e inner c (modify (Session.recordSlot name))
  | kind : Step e inner c (kind e inner c.view c.tag)
  | plug (name output : String) (append : Bool) :
      Step e inner c (modify (Session.plug name output append))

/-- The states of a rendering: where it starts, between its steps, in whatever order, and where it
ends. -/
inductive Rendering.Passes (e : Engine) (inner : Renderer) (c : Rendering) : Session → Memory → Prop
  | start : Passes e inner c c.session c.memory
  | step {s s' : Session} {m m' : Memory} {α : Type} {x : Render α} {a : α}
      (h : Passes e inner c s m) (hstep : c.Step e inner x) (hx : x s m = (.ok (a, s'), m')) :
      Passes e inner c s' m'
  | finish {s : Session} {m : Memory} {output : Option String}
      (h : c.outcome (tagStep e inner) = (.ok (output, s), m)) : Passes e inner c s m

/-- Views come after the views that include them, so that the views around a view come to an end,
and all macros are of tags that define them, in views that are there. -/
structure Session.IsSound (s : Session) : Prop where
  parent_lt {i p : Nat} (h : s.views.IsParent i p) : p < i
  outermost {i : Nat} (hi : i < s.views.length) : ∃ j v,
    Relation.ReflTransGen s.views.IsParent i j ∧ s.views[j]? = some v ∧ v.parent = none
  macros {name : String} {body : MacroBody} (h : s.macros.get? name = some body) : ∃ v t,
    s.views[body.view]? = some v ∧ v.template.find? body.tag = some t ∧
      t.directives.macroName = some name

/-- The template can take part in the render of a page: it is the page, or it can be loaded. -/
def Engine.Supplies (e : Engine) (m : Memory) (page template : Template) : Prop :=
  template = page ∨ ∃ path, e.Gives m path template

namespace Render

-- ---------------------------------------------------------------------------
-- The invariant
-- ---------------------------------------------------------------------------

/-- All views are of numbered templates that can take part and were added and given dictionaries in
some order, and all macros are of tags that define them. -/
structure Kept (e : Engine) (m₀ : Memory) (page : Template) (known : List Template) (s : Session)
    (m : Memory) : Prop extends InOrder e m₀ known known s m where
  reachable : s.views.IsReachable
  numbered : ∀ template ∈ known, template.IsNumbered
  supplied : ∀ template ∈ known, e.Supplies m₀ page template

/-- A render beside itself, in sessions with the invariant. -/
def kept (e : Engine) (m₀ : Memory) (page : Template) : Simulation where
  World := List Template
  le := (· <+: ·)
  refl _ := List.prefix_rfl
  trans := List.IsPrefix.trans
  Rel known s m s' m' := s' = s ∧ m' = m ∧ Kept e m₀ page known s m
  Stops stop stop' := stop' = stop
  first := False
  second := False

variable {e : Engine} {m₀ : Memory} {page : Template} {known : List Template}
  {s s' : Session} {m m' : Memory}

namespace Kept

theorem of_eq (h : Kept e m₀ page known s m) (hviews : s'.views = s.views)
    (hfunctions : s'.functions = s.functions) (hmacros : s'.macros = s.macros) :
    Kept e m₀ page known s' m :=
  ⟨h.toInOrder.of_eq (congrArg _ hviews) hfunctions hmacros, hviews ▸ h.reachable, h.numbered,
    h.supplied⟩

theorem length (h : Kept e m₀ page known s m) : s.views.length = known.length := by
  rw [← h.views, List.length_map]

/-- A view of a template that is known. -/
theorem exists_view (h : Kept e m₀ page known s m) {view : Nat} {template : Template}
    (hat : IsAt view template known) : ∃ v, s.views[view]? = some v ∧ v.template = template := by
  rw [IsAt, ← h.views, List.getElem?_map] at hat
  exact Option.map_eq_some_iff.1 hat

theorem addView (h : Kept e m₀ page known s m) {template : Template}
    (hnumbered : template.IsNumbered) (hsupplied : e.Supplies m₀ page template)
    {parent : Option Nat} (hparent : ∀ p ∈ parent, p < s.views.length) :
    Kept e m₀ page (known ++ [template]) (s.addView template parent) m := by
  have hwide : InOrder e m₀ (known ++ [template]) known s m :=
    { h.toInOrder with among := fun _ => List.mem_append_left _ }
  exact ⟨hwide.addView (by simp) parent, h.reachable.push template hparent,
    List.forall_mem_append.2 ⟨h.numbered, List.forall_mem_singleton.2 hnumbered⟩,
    List.forall_mem_append.2 ⟨h.supplied, List.forall_mem_singleton.2 hsupplied⟩⟩

theorem attach (h : Kept e m₀ page known s m) {view : Nat} {template : Template}
    (hat : IsAt view template known) (name : Option String) (d : Dictionary) :
    Kept e m₀ page known { s with views := s.views.attach name d view } m := by
  obtain ⟨v, hv, -⟩ := h.exists_view hat
  exact ⟨h.toInOrder.of_eq (s.views.map_shape_attach name d view) rfl rfl,
    h.reachable.attach (List.getElem?_eq_some_iff.1 hv).1 name d, h.numbered, h.supplied⟩

end Kept

theorem isAt_lasts_kept (e : Engine) (m₀ : Memory) (page : Template) (view : Nat)
    (template : Template) : (kept e m₀ page).Lasts (IsAt view template) :=
  isAt_lasts e m₀ [] view template

theorem kept_isAlone : (kept e m₀ page).IsAlone e (Kept e m₀ page) where
  rel := .rfl
  fault _ := rfl
  called _ _ _ _ _ := rfl
  functions h := h.functions
  lookedUp h _ _ hf := { h.toInOrder.lookedUp hf, h with }
  same h := h.of_eq
  parsed h exprs := { h with asked := h.asked.parsed exprs }
  loadDictionary h language file := { h with asked := h.asked.loadDictionary language file }

theorem holds_dictionary {view : Nat} {template : Template} (t : Tag) (file : String)
    (name source : Option String) : (kept e m₀ page).Holds (IsAt view template)
      (dictionary e view t file name source) (dictionary e view t file name source) :=
  kept_isAlone.dictionary (isAt_lasts_kept e m₀ page view template) view t file name source
    fun d _ _ _ hkept hat => hkept.attach hat name d

theorem holds_defineMacro {view : Nat} {template : Template} {t : Tag} {name : String}
    (ht : t ∈ template.root.tags) (hname : t.directives.macroName = some name) :
    (kept e m₀ page).Holds (IsAt view template) (modify (Session.defineMacro name ⟨view, t.id⟩))
      (modify (Session.defineMacro name ⟨view, t.id⟩)) := by
  refine kept_isAlone.holds_modify fun {known s m} hkept hat => ?_
  have hnumbered := hkept.numbered template (List.mem_of_getElem? hat)
  exact { hkept.toInOrder.defineMacro hat ht (hnumbered.find?_eq ht) hname, hkept with }

/-- Two renderers come to the same in all sessions with the invariant, and keep it. -/
def Agree (e : Engine) (m₀ : Memory) (page : Template) (inner inner' : Renderer) : Prop :=
  ∀ template view t suppressed, t ∈ template.root.tags →
    (kept e m₀ page).Holds (IsAt view template) (inner t view suppressed) (inner' t view suppressed)

namespace Agree

variable {inner inner' : Renderer} (h : Agree e m₀ page inner inner') {template : Template}
  {view : Nat}

include h

theorem output {t : Tag} (ht : t ∈ template.root.tags) (suppressed : Suppressed) :
    (kept e m₀ page).Holds (IsAt view template) (inner.output t view suppressed)
      (inner'.output t view suppressed) :=
  (Simulation.Holds.pairs (isAt_lasts_kept e m₀ page view template)).map _
    (h template view t suppressed ht)

theorem inclusion (hgives : ∀ path other, e.Gives m₀ path other → other.IsNumbered) (t : Tag)
    (file : String) : (kept e m₀ page).Holds (IsAt view template) (inclusion e inner view t file)
      (inclusion e inner' view t file) := by
  rintro (known : List Template) _ _ s m ⟨rfl, rfl, hkept⟩ hat
  rw [inclusion_apply, inclusion_apply]
  have hasked := hkept.asked.load (Path.resolve (s.views.path view) file)
  have hgiven {compiled : Compiled}
      (hload : (e.load (Path.resolve (s.views.path view) file) m).1 = .ok compiled) :
      e.Gives m₀ (Path.resolve (s.views.path view) file) compiled.template :=
    .of_load hkept.asked hload
  generalize e.load (Path.resolve (s.views.path view) file) m = r at hasked hgiven
  obtain ⟨f | compiled, n⟩ := r
  · exact .stop rfl
  · obtain ⟨v, hv, -⟩ := hkept.exists_view hat
    have hadded : Kept e m₀ page (known ++ [compiled.template])
        (s.addView compiled.template (some view)) n :=
      Kept.addView { hkept with asked := hasked } (hgives _ _ (hgiven rfl)) (.inr ⟨_, hgiven rfl⟩)
        fun p hp => by
          cases hp
          exact (List.getElem?_eq_some_iff.1 hv).1
    have hat' : IsAt s.views.length compiled.template (known ++ [compiled.template]) := by
      rw [IsAt, hkept.length]
      simp
    refine .mono (List.prefix_append known [compiled.template]) ?_
    exact h.output compiled.template.root.mem_tags_self .none ⟨rfl, rfl, hadded⟩ hat'

theorem invoke (t : Tag) (name : String) (all : Table Value) :
    (kept e m₀ page).Holds (IsAt view template) (invoke inner view t name all)
      (invoke inner' view t name all) := by
  rintro (known : List Template) _ _ s m ⟨rfl, rfl, hkept⟩ -
  rw [invoke_apply, invoke_apply]
  cases hget : s.macros.get? name with
  | none => exact .ok List.prefix_rfl ⟨rfl, rfl, hkept.of_eq rfl rfl rfl⟩
  | some body =>
    obtain ⟨lender, u, hat, hu, hfind, -⟩ := hkept.macros name body hget
    obtain ⟨v, hv, rfl⟩ := hkept.exists_view hat
    have hfound : (s.views[body.view]?).bind (fun v => v.template.find? body.tag) = some u := by
      rw [hv]
      exact hfind
    simp only [hfound]
    have hpairs := Simulation.Holds.pairs (isAt_lasts_kept e m₀ page body.view v.template)
    refine hpairs.bind (h.output hu _) (fun text => ?_)
      ⟨rfl, rfl, hkept.of_eq rfl rfl rfl⟩ hat
    refine hpairs.bind ?_ fun _ => hpairs.pure text
    exact kept_isAlone.holds_modify_same (fun _ => rfl) (fun _ => rfl) fun _ => rfl

theorem inside {t : Tag} (ht : t ∈ template.root.tags) {c c' : Tag} (hc : t.IsInside c c') :
    (kept e m₀ page).Holds (IsAt view template) (inner.output c view .none)
      (inner'.output c' view .none) := by
  obtain ⟨rfl, hc⟩ := hc
  exact h.output (Tag.mem_tags_of_mem_contentTags ht hc) .none

theorem parameters {t : Tag} (ht : t ∈ template.root.tags) :
    (kept e m₀ page).Holds (IsAt view template) (parameters e inner view t)
      (Render.parameters e inner' view t) :=
  (kept_isAlone.along (isAt_lasts_kept e m₀ page view template) view).toBeside.parameters
    (Still.child_within fun hc => .inr hc.alike) (fun hc _ => h.inside ht hc) t.alike_isInside

section

variable (hgives : ∀ path other, e.Gives m₀ path other → other.IsNumbered) {t : Tag}
  (ht : t ∈ template.root.tags)

include hgives ht

theorem kind : (kept e m₀ page).Holds (IsAt view template) (kind e inner view t)
    (Render.kind e inner' view t) :=
  (kept_isAlone.along (isAt_lasts_kept e m₀ page view template) view).kind
    (fun hc => .inr hc.alike) (fun hc _ => h.inside ht hc) t.alike_isInside
    (fun file _ => h.inclusion hgives t file)
    fun file name source _ => holds_dictionary t file name source

theorem tagStep (suppressed : Suppressed) :
    (kept e m₀ page).Holds (IsAt view template) (tagStep e inner t view suppressed)
      (Render.tagStep e inner' t view suppressed) :=
  (kept_isAlone.along (isAt_lasts_kept e m₀ page view template) view).tagStep
    (fun hc => .inr hc.alike) (fun hc _ => h.inside ht hc) t.alike_isInside
    (fun _ _ => h.output ht _)
    (fun file _ => h.inclusion hgives t file)
    (fun file name source _ => holds_dictionary t file name source)
    (fun _ hname => holds_defineMacro ht hname)
    fun name _ all => h.invoke t name all

end

end Agree

/-- Renders of tags keep the invariant. -/
theorem agree_tag (hgives : ∀ path other, e.Gives m₀ path other → other.IsNumbered)
    (depth : Nat) : Agree e m₀ page (tag e depth) (tag e depth) := by
  induction depth with
  | zero => exact fun _ _ _ _ _ _ _ _ _ _ _ _ => .stop rfl
  | succ depth ih => exact fun _ _ _ suppressed ht => ih.tagStep hgives ht suppressed

-- ---------------------------------------------------------------------------
-- What takes place
-- ---------------------------------------------------------------------------

/-- The second step does what the first one does, or stops in one way. -/
def OrStops (stop : Stop) (n : Memory) {α : Type} (x y : Render α) : Prop :=
  ∀ s m, y s m = x s m ∨ y s m = (.error stop, n)

theorem orStops_pairs (stop : Stop) (n : Memory) : Pairs Render (OrStops stop n) where
  pure _ _ _ := .inl rfl
  bind {_ _ x _ _ _} hx hf s m := by
    rw [bind_apply, bind_apply]
    rcases hx s m with hsame | hstop
    · rw [hsame]
      obtain ⟨_ | ⟨a, t⟩, k⟩ := x s m
      · exact .inl rfl
      · exact hf a t k
    · rw [hstop]
      exact .inr rfl

theorem orStops_replace (inner : Renderer) (c : Rendering) (stop : Stop) (n : Memory) (t : Tag)
    (view : Nat) (suppressed : Suppressed) : OrStops stop n (inner t view suppressed)
      (inner.replace c (.error stop, n) t view suppressed) := by
  intro s m
  unfold Renderer.replace
  split
  · exact .inr rfl
  · exact .inl rfl

theorem orStops_parameters (inner : Renderer) (c : Rendering) (stop : Stop) (n : Memory)
    (view : Nat) (t : Tag) : OrStops stop n (parameters e inner view t)
      (parameters e (inner.replace c (.error stop, n)) view t) := by
  have halong : Along e view view Eq (OrStops stop n) :=
    .of_refl (orStops_pairs stop n) (fun _ _ _ => .inl rfl) e view
  refine halong.toBeside.parameters (Still.child_within fun hc => .inr (hc ▸ alike_eq _)) ?_
    (alike_eq t)
  rintro d _ rfl -
  exact halong.map _ (orStops_replace inner c stop n d view .none)

theorem bind_of_error {α β : Type} {x : Render α} {stop : Stop} (h : x s m = (.error stop, m'))
    (f : α → Render β) : (x >>= f) s m = (.error stop, m') := by
  rw [bind_apply, h]

theorem map_of_error {α β : Type} {x : Render α} {stop : Stop} (h : x s m = (.error stop, m'))
    (f : α → β) : (f <$> x) s m = (.error stop, m') := by
  rw [map_eq_pure_bind]
  exact bind_of_error h _

theorem output_replace_self (inner : Renderer) (c : Rendering) (stop : Stop) (n : Memory) :
    (inner.replace c (.error stop, n)).output c.tag c.view c.suppressed c.session c.memory =
      (.error stop, n) :=
  map_of_error (if_pos rfl) _

/-- A rendering takes place if its stops are passed on. -/
theorem enters_of_stops {inner : Renderer} {c c' : Rendering}
    (h : ∀ stop n, (c.outcome (tagStep e (inner.replace c' (.error stop, n)))).1 = .error stop) :
    Enters e inner c c' := by
  by_cases hdepth : (c.outcome (tagStep e inner)).1 = .error .depth
  · refine ⟨(.error .overflow, c.memory), ?_⟩
    rw [h, hdepth]
    nofun
  · refine ⟨(.error .depth, c.memory), ?_⟩
    rw [h]
    exact Ne.symm hdepth

/-- A tag that is not walked, after its condition. -/
theorem tagStep_eq_shown {inner : Renderer} {t : Tag} {view : Nat} {suppressed : Suppressed}
    (hwalk : t.directives.walk = none ∨ suppressed.walk = true)
    (hdefinition : t.directives.macroName = none ∨ suppressed.definition = true)
    (hcondition : condition e view t s m = (.ok (true, s'), m')) :
    tagStep e inner t view suppressed s m = shown e inner view t s' m' := by
  have hsingle : tagStep e inner t view suppressed = single e inner view t suppressed := by
    unfold tagStep
    rcases hwalk with hwalk | hwalk <;> rw [hwalk]
    cases t.directives.walk <;> rfl
  rw [hsingle, single, bind_apply, hcondition]
  rcases hdefinition with hdefinition | hdefinition <;> simp only [hdefinition, if_true]
  cases t.directives.macroName <;> rfl

/-- The root of a template takes place that is included. -/
theorem enters_inclusion {inner : Renderer} {c : Rendering} {file : String} {compiled : Compiled}
    (hwalk : c.tag.directives.walk = none ∨ c.suppressed.walk = true)
    (hdefinition : c.tag.directives.macroName = none ∨ c.suppressed.definition = true)
    (hcondition : condition e c.view c.tag c.session c.memory = (.ok (true, s), m))
    (hcall : c.tag.directives.call = none) (hslot : c.tag.directives.slot = none)
    (hplug : c.tag.directives.plug = none) (hkind : c.tag.kind = .inclusion file)
    (hload : e.load (Path.resolve (s.views.path c.view) file) m = (.ok compiled, m')) :
    Enters e inner c ⟨compiled.template.root, s.views.length, .none,
      s.addView compiled.template (some c.view), m'⟩ := by
  refine enters_of_stops fun stop n => ?_
  let c' : Rendering := ⟨compiled.template.root, s.views.length, .none,
    s.addView compiled.template (some c.view), m'⟩
  have hstop : inclusion e (inner.replace c' (.error stop, n)) c.view c.tag file s m =
      (.error stop, n) := by
    rw [inclusion_apply, hload]
    exact output_replace_self inner c' stop n
  rw [Rendering.outcome, tagStep_eq_shown hwalk hdefinition hcondition]
  simp only [shown, hcall, hslot, hplug, kind, hkind]
  exact congrArg Prod.fst (map_of_error hstop some)

/-- The body of a macro takes place that is called. -/
theorem enters_invocation {inner : Renderer} {c : Rendering} {name : String} {body : MacroBody}
    {u : Tag} {s₁ s₂ : Session} {m₁ m₂ : Memory} {arguments parameters : Table Value}
    (hwalk : c.tag.directives.walk = none ∨ c.suppressed.walk = true)
    (hdefinition : c.tag.directives.macroName = none ∨ c.suppressed.definition = true)
    (hcondition : condition e c.view c.tag c.session c.memory = (.ok (true, s₁), m₁))
    (hcall : c.tag.directives.call = some name)
    (harguments : Render.arguments e c.view c.tag s₁ m₁ = (.ok (arguments, s₂), m₂))
    (hparameters : Render.parameters e inner c.view c.tag s₂ m₂ = (.ok (parameters, s), m))
    (hbody : s.macros.get? name = some body)
    (hfound : (s.views[body.view]?).bind (fun v => v.template.find? body.tag) = some u) :
    Enters e inner c ⟨u, body.view, ⟨false, true⟩, s.enterMacro
      (parameters.foldl (fun done (key, v) => Table.put key v done) arguments), m⟩ := by
  refine enters_of_stops fun stop n => ?_
  let all := parameters.foldl (fun done (key, v) => Table.put key v done) arguments
  let c' : Rendering := ⟨u, body.view, ⟨false, true⟩, s.enterMacro all, m⟩
  have hinvoke : invoke (inner.replace c' (.error stop, n)) c.view c.tag name all s m =
      (.error stop, n) := by
    rw [invoke_apply, hbody]
    simp only [hfound]
    exact bind_of_error (output_replace_self inner c' stop n) _
  -- the parameters may render tags too, which either come to the same or stop in the same way
  have hstop : callMacro e (inner.replace c' (.error stop, n)) c.view c.tag name s₁ m₁ =
      (.error stop, n) := by
    rw [callMacro_eq, bind_apply, harguments]
    simp only
    rcases orStops_parameters inner c' stop n c.view c.tag s₂ m₂ with hsame | hother
    · rw [bind_apply, hsame, hparameters]
      exact hinvoke
    · exact bind_of_error hother _
  rw [Rendering.outcome, tagStep_eq_shown hwalk hdefinition hcondition]
  simp only [shown, hcall]
  exact congrArg Prod.fst (map_of_error hstop some)

-- ---------------------------------------------------------------------------
-- What is reached
-- ---------------------------------------------------------------------------

theorem Kept.isSound (h : Kept e m₀ page known s m) : s.IsSound where
  parent_lt := h.reachable.isLayered.parent_lt
  outermost hi := by
    obtain ⟨j, v, haround, hv, hroot⟩ :=
      h.reachable.isLayered.exists_outermost (List.getElem?_eq_getElem hi)
    exact ⟨j, v, haround, hv, hroot⟩
  macros {name body} hbody := by
    obtain ⟨template, t, hat, -, hfind, hname⟩ := h.macros name body hbody
    obtain ⟨v, hv, rfl⟩ := h.exists_view hat
    exact ⟨v, t, hv, hfind, hname⟩

/-- The rendering is of a tag of its view and starts with the invariant. -/
def IsReady (e : Engine) (m₀ : Memory) (page : Template) (c : Rendering) : Prop :=
  ∃ known template, Kept e m₀ page known c.session c.memory ∧ IsAt c.view template known ∧
    c.tag ∈ template.root.tags

theorem fst_eq_of_ends {α : Type} {r r' : Outcome α} (h : (kept e m₀ page).Ends known r r') :
    r'.1 = r.1 := by
  cases h with
  | ok _ hrel =>
    obtain ⟨rfl, rfl, -⟩ := hrel
    rfl
  | stop h => exact congrArg Except.error h
  | first h => exact h.elim
  | second h => exact h.elim

/-- A step that keeps the invariant leaves it where it ends. -/
theorem exists_kept_of_holds {α : Type} {x : Render α} {view : Nat} {template : Template} {a : α}
    (h : (kept e m₀ page).Holds (IsAt view template) x x) (hkept : Kept e m₀ page known s m)
    (hat : IsAt view template known) (hx : x s m = (.ok (a, s'), m')) :
    ∃ known', Kept e m₀ page known' s' m' ∧ IsAt view template known' := by
  have hends := h ⟨rfl, rfl, hkept⟩ hat
  rw [hx] at hends
  cases hends with
  | ok hle hrel => exact ⟨_, hrel.2.2, isAt_lasts_kept e m₀ page view template hle hat⟩

/-- A rendering that is not ready makes no difference to those with the invariant. -/
theorem agree_replace {inner : Renderer} (h : Agree e m₀ page inner inner) {c : Rendering}
    (hc : ¬ IsReady e m₀ page c) (outcome : Outcome (Option String)) :
    Agree e m₀ page inner (inner.replace c outcome) := by
  rintro template view t suppressed ht (known : List Template) _ _ s m ⟨rfl, rfl, hkept⟩ hat
  have hother : c ≠ ⟨t, view, suppressed, s, m⟩ := by
    rintro rfl
    exact hc ⟨known, template, hkept, hat, ht⟩
  rw [Renderer.replace, if_neg hother]
  exact h template view t suppressed ht ⟨rfl, rfl, hkept⟩ hat

section

variable (hgives : ∀ path other, e.Gives m₀ path other → other.IsNumbered)

include hgives

theorem IsReady.enters {inner : Renderer} (h : Agree e m₀ page inner inner) {c c' : Rendering}
    (hc : IsReady e m₀ page c) (henters : Enters e inner c c') : IsReady e m₀ page c' := by
  obtain ⟨known, template, hkept, hat, ht⟩ := hc
  obtain ⟨outcome, hdiffers⟩ := henters
  by_contra hc'
  have hagree := agree_replace h hc' outcome
  exact hdiffers (fst_eq_of_ends (hagree.tagStep hgives ht c.suppressed ⟨rfl, rfl, hkept⟩ hat))

/-- All renderings that take place are ready when they start. -/
theorem Reaches.isReady {template : Template} {data : Value} {language : Option String}
    {depth left : Nat} {c : Rendering} (h : Reaches e template data language m₀ depth left c)
    (htemplate : template.IsNumbered) : IsReady e m₀ template c := by
  induction h with
  | root =>
    have hempty : Kept e m₀ template [] (.start data language) m₀ :=
      { InOrder.start data language m₀ with
        reachable := .nil
        numbered := nofun
        supplied := nofun }
    exact ⟨[template], template, hempty.addView htemplate (.inl rfl) nofun, rfl,
      template.root.mem_tags_self⟩
  | within _ henters ih => exact ih.enters hgives (agree_tag hgives _) henters

/-- All states that a ready rendering passes have the invariant. -/
theorem IsReady.passes {inner : Renderer} (hinner : Agree e m₀ page inner inner) {c : Rendering}
    (hc : IsReady e m₀ page c) (h : c.Passes e inner s m) :
    IsReady e m₀ page { c with session := s, memory := m } := by
  obtain ⟨known, template, hkept, hat, ht⟩ := hc
  have hlasts : (kept e m₀ page).Lasts (IsAt c.view template) :=
    isAt_lasts_kept e m₀ page c.view template
  have halong := kept_isAlone.along hlasts c.view
  suffices h : ∃ known, Kept e m₀ page known s m ∧ IsAt c.view template known by
    obtain ⟨known, hkept, hat⟩ := h
    exact ⟨known, template, hkept, hat, ht⟩
  induction h with
  | start => exact ⟨known, hkept, hat⟩
  | step _ hstep hx ih =>
    obtain ⟨known, hkept, hat⟩ := ih
    refine exists_kept_of_holds ?_ hkept hat hx
    cases hstep with
    | evaluation expr => exact halong.evaluate rfl (startsWithin_true expr)
    | condition => exact halong.condition c.tag.alike_isInside (tagWithin_true c.tag)
    | definition hname => exact holds_defineMacro ht hname
    | arguments => exact halong.arguments c.tag.alike_isInside (argumentsWithin_true c.tag)
    | parameters => exact hinner.parameters ht
    | invocation name all => exact hinner.invoke c.tag name all
    | slot name => exact halong.recordSlot name
    | kind => exact hinner.kind hgives ht
    | plug name output append => exact halong.plug name output append
  | finish h => exact exists_kept_of_holds (hinner.tagStep hgives ht c.suppressed) hkept hat h

end

/-- In all states of all renderings that take place while a page is rendered, the sessions are sound
and the view is there that is rendered from. So the body of a macro that is known is found and
rendered. -/
theorem Reaches.isSound_of_passes {e : Engine} {template : Template} {m m' : Memory} {data : Value}
    {language : Option String} {depth left inside : Nat} {c : Rendering} {s : Session}
    (hpage : ∃ path lead text, Template.compile path lead text = .ok template)
    (hloaded : ∀ path other, e.Gives m path other →
      ∃ path lead text, Template.compile path lead text = .ok other)
    (h : Reaches e template data language m depth left c) (hs : c.Passes e (tag e inside) s m') :
    s.IsSound ∧
    (∃ v, s.views[c.view]? = some v ∧ c.tag ∈ v.template.root.tags) ∧
    ∀ name body, s.macros.get? name = some body → ∃ t, t.directives.macroName = some name ∧
      ∀ inner arguments, macroBody inner arguments body s m' = (do
        let text ← inner.output t body.view ⟨false, true⟩
        modify (Session.leaveMacro s)
        return text : Render String) (s.enterMacro arguments) m' := by
  have hnumbered {template : Template}
      (h : ∃ path lead text, Template.compile path lead text = .ok template) :
      template.IsNumbered := by
    obtain ⟨_, _, _, hcompile⟩ := h
    exact Template.isNumbered_of_compile hcompile
  have hgives (path : String) (other : Template) (h : e.Gives m path other) : other.IsNumbered :=
    hnumbered (hloaded path other h)
  have hready := (h.isReady hgives (hnumbered hpage)).passes hgives (agree_tag hgives inside) hs
  obtain ⟨known, template, hkept, hat, ht⟩ := hready
  refine ⟨hkept.isSound, ?_, fun name body hbody => ?_⟩
  · obtain ⟨v, hv, rfl⟩ := hkept.exists_view hat
    exact ⟨v, hv, ht⟩
  · obtain ⟨v, t, hv, hfind, hname⟩ := hkept.isSound.macros hbody
    have hfound : (s.views[body.view]?).bind (fun v => v.template.find? body.tag) = some t := by
      rw [hv]
      exact hfind
    refine ⟨t, hname, fun inner arguments => ?_⟩
    rw [macroBody_apply, hfound]

/-- A page that includes a part. -/
def includingPage : Template :=
  ⟨"page.xml", "fig:", ⟨0, "fig:include", 1, .inclusion "part.xml", [], .none, [], true, none⟩, []⟩

/-- A part whose root calls a macro that one of its parameters defines. -/
def callingPart : Template :=
  let tag (id : Nat) (name : String) (kind : TagKind) (directives : Directives)
      (children : List (Node Tag)) (selfClosing : Bool) : Tag :=
    ⟨id, name, 1, kind, [], directives, children, selfClosing, none⟩
  let body := tag 2 "b" .element { Directives.none with macroName := some "m" } [] true
  let param := tag 1 "fig:param" (.param "q" none) .none [.child body] false
  ⟨"part.xml", "fig:", tag 0 "a" .element { Directives.none with call := some "m" } [.child param]
    false, []⟩

def callingDocument : Document :=
  let body : Element := ⟨"b", [("fig:macro", "m")], 1, true, []⟩
  let param : Element := ⟨"fig:param", [("name", "q")], 1, false, [.child body]⟩
  ⟨⟨"a", [("fig:call", "m")], 1, false, [.child param]⟩, []⟩

/-- An engine that has the part. -/
def callingEngine : Engine :=
  Engine.default.onShelf (Shelf.empty.put "part.xml"
    "<a fig:call='m'><fig:param name='q'><b fig:macro='m'/></fig:param></a>")

unseal Text.unescape? in
theorem compile_includingPage :
    Template.compile "page.xml" "fig:" "<fig:include file='part.xml'/>" = .ok includingPage := by
  have hread : Document.read "<fig:include file='part.xml'/>" =
      .ok ⟨⟨"fig:include", [("file", "part.xml")], 1, true, []⟩, []⟩ := by
    decide +kernel
  rw [Template.compile, hread]
  rfl

unseal Text.unescape? in
theorem compile_callingPart : Template.compile "part.xml" "fig:"
    "<a fig:call='m'><fig:param name='q'><b fig:macro='m'/></fig:param></a>" = .ok callingPart := by
  have hread : Document.read
      "<a fig:call='m'><fig:param name='q'><b fig:macro='m'/></fig:param></a>" =
        .ok callingDocument := by
    decide +kernel
  rw [Template.compile, hread]
  rfl

theorem due_callingPart : callingEngine.due ⟨[]⟩ "part.xml" = .ok callingPart := by
  have hpath : Path.normalize "part.xml" = "part.xml" := by rfl
  have hread : callingEngine.source.read ⟨[]⟩ "part.xml" =
      .ok ⟨"<a fig:call='m'><fig:param name='q'><b fig:macro='m'/></fig:param></a>", 0⟩ :=
    Engine.read_onShelf_eq_ok_iff.2 (by rfl)
  rw [Engine.due, hpath, hread]
  exact compile_callingPart

theorem isCurrent_callingEngine : callingEngine.IsCurrent (.ofFiles ⟨[]⟩) :=
  Engine.isCurrent_ofFiles rfl ⟨[]⟩

/-- The body of the macro is rendered from the part, which is the second view. -/
theorem exists_reaches_body :
    ∃ c, Reaches callingEngine includingPage .null none (.ofFiles ⟨[]⟩) 3 1 c ∧ c.view = 1 ∧
      c.tag.name = "b" ∧ c.session.macros.get? "m" = some ⟨1, 2⟩ := by
  obtain ⟨compiled, m, hload, htemplate⟩ : ∃ compiled m,
      callingEngine.load "part.xml" (.ofFiles ⟨[]⟩) = (.ok compiled, m) ∧
        compiled.template = callingPart := by
    have hanswer := (isCurrent_callingEngine.load_eq "part.xml").trans due_callingPart
    generalize callingEngine.load "part.xml" (.ofFiles ⟨[]⟩) = answer at hanswer
    obtain ⟨_ | compiled, m⟩ := answer
    · cases hanswer
    · exact ⟨compiled, m, rfl, Except.ok.inj hanswer⟩
  have hfile : Path.resolve "page.xml" "part.xml" = "part.xml" := by rfl
  have hpart : Reaches callingEngine includingPage .null none (.ofFiles ⟨[]⟩) 3 2 _ :=
    .within .root (enters_inclusion (.inl rfl) (.inl rfl) rfl rfl rfl rfl rfl (hfile.symm ▸ hload))
  rw [htemplate] at hpart
  have hbody := Reaches.within hpart
    (enters_invocation (.inl rfl) (.inl rfl) rfl rfl rfl rfl rfl rfl)
  exact ⟨_, hbody, rfl, rfl, rfl⟩

theorem isSound_of_passes_body :
    ∃ c, Reaches callingEngine includingPage .null none (.ofFiles ⟨[]⟩) 3 1 c ∧ c.view = 1 ∧
      c.tag.name = "b" ∧ c.session.macros.get? "m" = some ⟨1, 2⟩ ∧ c.session.IsSound ∧
      (∃ v, c.session.views[c.view]? = some v ∧ c.tag ∈ v.template.root.tags) ∧
      ∀ name body, c.session.macros.get? name = some body →
        ∃ t, t.directives.macroName = some name ∧ ∀ inner arguments,
          macroBody inner arguments body c.session c.memory = (do
            let text ← inner.output t body.view ⟨false, true⟩
            modify (Session.leaveMacro c.session)
            return text : Render String) (c.session.enterMacro arguments) c.memory := by
  obtain ⟨c, hc, hview, hname, hdefinition⟩ := exists_reaches_body
  refine ⟨c, hc, hview, hname, hdefinition, ?_⟩
  have hstart : c.Passes callingEngine (tag callingEngine 0) c.session c.memory := .start
  refine Reaches.isSound_of_passes ⟨_, _, _, compile_includingPage⟩ (fun path other hgives => ?_)
    hc hstart
  have hdue := isCurrent_callingEngine.due_eq_of_gives (Engine.admits_stays_of_none rfl)
    hgives
  obtain ⟨text, htext⟩ := Engine.exists_compile_of_due hdue
  exact ⟨_, _, text, htext⟩

end Render

end XmlTemplate
