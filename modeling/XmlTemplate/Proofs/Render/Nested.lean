import XmlTemplate.Proofs.Render.Reached
import XmlTemplate.Proofs.Render.Recall

/-!
# What nested renderings start with

A tag leaves the frames and the walks of the session as they are, and so do the steps that it is
made of. So all that is rendered in a tag starts with the frames and the walks that the tag started
with, whatever walks, calls and inclusions came before it. Only items of walks and bodies of macros
have frames and walks of their own.

That a rendering takes place is told from outside, by its outcome. So it is shown of two renderers:
where they differ in other frames or walks only, a tag comes to the same with both.
-/

namespace XmlTemplate

-- ---------------------------------------------------------------------------
-- Parts
-- ---------------------------------------------------------------------------

open Render

/-- What a rendering of a tag is made of, down to single calls of functions. -/
inductive Rendering.Part (e : Engine) (inner : Renderer) (c : Rendering) :
    {α : Type} → Render α → Prop
  | call (place : Place) (name : String) (args : List Value) :
      Part e inner c (call e place name args)
  | parse (place : Place) (source : String) : Part e inner c (parse place source)
  | warning (place : Place) (f : Location → Fault) : Part e inner c (warnAt place f)
  | tag {t : Tag} (h : t ∈ Tag.contentTags c.tag.children) : Part e inner c (inner t c.view .none)
  | walk (d : Directive) : Part e inner c (walk e inner c.view c.tag d c.suppressed)
  | inclusion (file : String) : Part e inner c (inclusion e inner c.view c.tag file)
  | invocation (name : String) (all : Table Value) :
      Part e inner c (invoke inner c.view c.tag name all)
  | definition (name : String) :
      Part e inner c (modify (Session.defineMacro name ⟨c.view, c.tag.id⟩))
  | slot (name : String) : Part e inner c (modify (Session.recordSlot name))
  | plug (name output : String) (append : Bool) :
      Part e inner c (modify (Session.plug name output append))
  | mount (target : String) (v : Value) : Part e inner c (modify (Session.mount target v))
  | feed (place : Place) (feedClass : String) (parameters : Table Value) :
      Part e inner c (findFeed e place feedClass parameters)
  | dictionary (file : String) (name source : Option String) :
      Part e inner c (dictionary e c.view c.tag file name source)
  | consult (place : Place) {α : Type} (use : Memory → Except Fault α × Memory) :
      Part e inner c (consult place use)

/-- The states of a rendering: where it starts and behind each of its parts, in whatever order. -/
inductive Rendering.Visits (e : Engine) (inner : Renderer) (c : Rendering) :
    Session → Memory → Prop
  | start : Visits e inner c c.session c.memory
  | part {s s' : Session} {m m' : Memory} {α : Type} {x : Render α} {a : α}
      (h : Visits e inner c s m) (hpart : c.Part e inner x) (hx : x s m = (.ok (a, s'), m')) :
      Visits e inner c s' m'

namespace Render

variable {e : Engine} {inner : Renderer} {c : Rendering} {s s' : Session} {m m' : Memory}

theorem growing_invoke {inner : Renderer}
    (hinner : ∀ t view suppressed, Growing (inner t view suppressed)) (view : Nat) (t : Tag)
    (name : String) (all : Table Value) : Growing (invoke inner view t name all) := by
  refine steps_get_bind fun s => ?_
  split
  · exact growing_macroBody hinner all _ s
  · exact growing_composes.bind (keeping_warnAt _ _).growing (fun _ => growing_composes.pure _) s

/-- No part moves frames or walks. -/
theorem growing_of_part (hgrowing : ∀ t view suppressed, Growing (inner t view suppressed))
    {α : Type} {x : Render α} (h : c.Part e inner x) : Growing x := by
  cases h with
  | call place name args => exact (keeping_call e place name args).growing
  | parse place source => exact (keeping_parse place source).growing
  | warning place f => exact (keeping_warnAt place f).growing
  | tag => exact hgrowing _ _ _
  | walk d => exact growing_walk e hgrowing c.view c.tag d c.suppressed
  | inclusion file => exact growing_inclusion e hgrowing c.view c.tag file
  | invocation name all => exact growing_invoke hgrowing c.view c.tag name all
  | definition name => exact steps_modify fun s => s.grows_defineMacro name _
  | slot name => exact steps_modify fun s => s.grows_recordSlot name
  | plug name output append => exact steps_modify fun s => s.grows_plug name output append
  | mount target v => exact steps_modify fun s => (s.keeps_mount target v).grows
  | feed place feedClass parameters => exact (keeping_findFeed e place feedClass parameters).growing
  | dictionary file name source =>
    exact (keeping_dictionary e c.view c.tag file name source).growing
  | consult place use => exact (keeping_consult place use).growing

/-- All states of a rendering have grown from the one it starts in. -/
theorem grows_of_visits (hgrowing : ∀ t view suppressed, Growing (inner t view suppressed))
    (h : c.Visits e inner s m) : c.session.Grows s := by
  induction h with
  | start => exact .refl _
  | part _ hpart hx ih => exact ih.trans (growing_of_part hgrowing hpart _ hx)

/-! ## A rendering is made of its parts -/

/-- Wherever the step starts in a rendering, the state it leaves is one of the rendering, too. -/
def Visiting (e : Engine) (inner : Renderer) (c : Rendering) {α : Type} (x : Render α) : Prop :=
  ∀ ⦃s m a s' m'⦄, c.Visits e inner s m → x s m = (.ok (a, s'), m') → c.Visits e inner s' m'

theorem visiting_of_part {α : Type} {x : Render α}
    (h : c.Part e inner x) : Visiting e inner c x := fun _ _ _ _ _ hs hx => hs.part h hx

theorem visiting_composes : Composes Render (Visiting e inner c) where
  pure a s m b s' m' hs hx := by
    obtain ⟨-, rfl, rfl⟩ := pure_eq_ok_iff.1 hx
    exact hs
  bind hx hf s m b s' m' hs h := by
    obtain ⟨a, s₁, m₁, hx', hf'⟩ := bind_eq_ok_iff.1 h
    exact hf a (hx hs hx') hf'

theorem visiting_see {α β : Type} (see : Session → β) {f : β → Render α}
    (hf : ∀ b, Visiting e inner c (f b)) : Visiting e inner c (do f (see (← get))) :=
  fun s _ _ _ _ hs hx => hf (see s) hs hx

theorem visiting_failAt {α : Type} (place : Place) (f : Location → Fault) :
    Visiting e inner c (failAt place f : Render α) := fun _ _ _ _ _ _ hx => nomatch hx

theorem visiting_local : Local e (Visiting e inner c) where
  toComposes := visiting_composes
  environment place :=
    { lookup := fun key => visiting_see (·.lookup key) fun v => visiting_composes.pure v
      call := fun name args => visiting_of_part (.call place name args)
      noText := visiting_failAt place .noText }
  parse place source := visiting_of_part (.parse place source)
  failAt := visiting_failAt

theorem visiting_level : Level e c.view c.view Eq (Itself (Visiting e inner c)) where
  toPairs := itself_pairs visiting_composes
  evaluate hline expr _ := ⟨hline ▸ rfl, visiting_local.evaluate _ expr⟩
  evaluateAttribute hline raw _ := ⟨hline ▸ rfl, visiting_local.evaluateAttribute _ raw⟩
  failAt hline f _ := ⟨hline ▸ rfl, visiting_failAt _ f⟩
  warnAt hline f _ := ⟨hline ▸ rfl, visiting_of_part (.warning _ f)⟩
  language hfg := ⟨bind_congr fun s => (hfg s.language).1,
    visiting_see Session.language fun l => (hfg l).2⟩
  translate {_ key dict _ _} hfg := ⟨bind_congr fun _ => (hfg _).1,
    visiting_see (fun s => s.views.translate c.view key dict) fun found => (hfg found).2⟩
  findFeed hline feedClass parameters :=
    ⟨hline ▸ rfl, visiting_of_part (.feed _ feedClass parameters)⟩
  verbatim {t t'} hline file := by
    refine ⟨verbatim_of_line hline e c.view file, ?_⟩
    refine @visiting_see e inner c _ _ (fun s => Path.resolve (s.views.path c.view) file)
      (fun path => do
        let revision ← consult (t.place c.view) fun m => (e.source.read m.files path, m)
        return revision.text) fun path => ?_
    exact visiting_composes.bind (visiting_of_part (.consult _ _)) fun _ => visiting_composes.pure _
  mount target v := ⟨rfl, visiting_of_part (.mount target v)⟩
  recordSlot name := ⟨rfl, visiting_of_part (.slot name)⟩
  plug name output append := ⟨rfl, visiting_of_part (.plug name output append)⟩

/-- A rendering ends in a state that it comes to by its parts. -/
theorem visits_of_outcome {output : Option String}
    (h : c.outcome (tagStep e inner) = (.ok (output, s), m)) : c.Visits e inner s m := by
  have hlevel : Level e c.view c.view Eq (Itself (Visiting e inner c)) := visiting_level
  have hinside {t t' : Tag} (ht : c.tag.IsInside t t') :
      Itself (Visiting e inner c) (inner.output t c.view .none) (inner.output t' c.view .none) := by
    obtain ⟨rfl, ht⟩ := ht
    exact ⟨rfl, visiting_composes.map _ (visiting_of_part (.tag ht))⟩
  have hkind :
      Itself (Visiting e inner c) (kind e inner c.view c.tag) (kind e inner c.view c.tag) :=
    hlevel.kind (fun hc => .inr hc.alike) (fun hc _ => hinside hc) c.tag.alike_isInside
      (fun file _ => ⟨rfl, visiting_of_part (.inclusion file)⟩)
      fun file name source _ => ⟨rfl, visiting_of_part (.dictionary file name source)⟩
  have htag : Itself (Visiting e inner c) (tagStep e inner c.tag c.view c.suppressed)
      (tagStep e inner c.tag c.view c.suppressed) :=
    hlevel.tagStep_of_walk (fun hc => .inr hc.alike) (fun hc _ => hinside hc) c.tag.alike_isInside
      (fun d _ _ => ⟨rfl, visiting_of_part (.walk d)⟩) hkind
      (fun name _ => ⟨rfl, visiting_of_part (.definition name)⟩)
      fun name _ all => ⟨rfl, visiting_of_part (.invocation name all)⟩
  exact htag.2 .start h

variable {frames : List Value} {iterations : List Iteration}

-- ---------------------------------------------------------------------------
-- The same in given frames and walks
-- ---------------------------------------------------------------------------

/-- The first step leaves frames and walks as they are, and in these ones the second step does the
same. -/
def SameWith (frames : List Value) (iterations : List Iteration) {α : Type} (x y : Render α) :
    Prop :=
  Growing x ∧ ∀ s m, s.frames = frames → s.iterations = iterations → y s m = x s m

theorem SameWith.refl {α : Type} {x : Render α} (h : Growing x) :
    SameWith frames iterations x x := ⟨h, fun _ _ _ _ => rfl⟩

theorem sameWith_pairs : Pairs Render (SameWith frames iterations) where
  pure a := .refl (growing_composes.pure a)
  bind {_ _ x _ _ _} hx hf := by
    refine ⟨growing_composes.bind hx.1 fun a => (hf a).1, fun s m hframes hiterations => ?_⟩
    rw [bind_apply, bind_apply, hx.2 s m hframes hiterations]
    rcases hrun : x s m with ⟨stop | ⟨a, s₁⟩, n⟩
    · rfl
    · have hgrows := hx.1 s hrun
      exact (hf a).2 s₁ n (hgrows.frames.trans hframes) (hgrows.iterations.trans hiterations)

/-- A step that goes by what it sees of the session. -/
theorem SameWith.see {α β : Type} (see : Session → β) {f g : β → Render α}
    (hfg : ∀ b, SameWith frames iterations (f b) (g b)) :
    SameWith frames iterations (do f (see (← get))) (do g (see (← get))) :=
  ⟨steps_get_bind fun s => (hfg (see s)).1 s, fun s m => (hfg (see s)).2 s m⟩

theorem sameWith_level (e : Engine) (view : Nat) :
    Level e view view Eq (SameWith frames iterations) where
  toPairs := sameWith_pairs
  evaluate hline expr _ := hline ▸ .refl ((growing_local e).evaluate _ expr)
  evaluateAttribute hline raw _ := hline ▸ .refl ((growing_local e).evaluateAttribute _ raw)
  failAt hline f _ := hline ▸ .refl ((growing_local e).failAt _ f)
  warnAt hline f _ := hline ▸ .refl (keeping_warnAt _ f).growing
  language hfg := .see Session.language hfg
  translate {_ key dict _ _} hfg := .see (fun s => s.views.translate view key dict) hfg
  findFeed hline feedClass parameters :=
    hline ▸ .refl (keeping_findFeed e _ feedClass parameters).growing
  verbatim {t t'} hline file := by
    rw [verbatim_of_line hline]
    exact .refl (keeping_verbatim e view t file).growing
  mount target v := .refl (steps_modify fun s => (s.keeps_mount target v).grows)
  recordSlot name := .refl (steps_modify fun s => s.grows_recordSlot name)
  plug name output append := .refl (steps_modify fun s => s.grows_plug name output append)

-- ---------------------------------------------------------------------------
-- Two renderers
-- ---------------------------------------------------------------------------

section

variable {inner' : Renderer}

/-- Walks go by how the tag is rendered for items. -/
theorem walk_congr {view : Nat} {t : Tag} {suppressed : Suppressed}
    (h : inner' t view { suppressed with walk := true } =
      inner t view { suppressed with walk := true }) (d : Directive) :
    walk e inner' view t d suppressed = walk e inner view t d suppressed := by
  have hitem : addItem inner' view t { suppressed with walk := true } =
      addItem inner view t { suppressed with walk := true } := by
    unfold addItem
    rw [h]
  unfold walk
  rw [hitem]

/-- Calls go by how bodies of macros are rendered. -/
theorem invoke_congr (h : ∀ t view, inner' t view ⟨false, true⟩ = inner t view ⟨false, true⟩)
    (view : Nat) (t : Tag) (name : String) (all : Table Value) :
    invoke inner' view t name all = invoke inner view t name all := by
  unfold invoke macroBody
  simp only [h]

variable (hgrowing : ∀ t view suppressed, Growing (inner t view suppressed))
  (hsame : ∀ t view, SameWith frames iterations (inner t view .none) (inner' t view .none))

include hgrowing hsame

theorem sameWith_inclusion (view : Nat) (t : Tag) (file : String) : SameWith frames iterations
    (inclusion e inner view t file) (inclusion e inner' view t file) := by
  refine ⟨growing_inclusion e hgrowing view t file, fun s m hframes hiterations => ?_⟩
  rw [inclusion_apply, inclusion_apply]
  rcases e.load (Path.resolve (s.views.path view) file) m with ⟨f | compiled, n⟩
  · rfl
  · exact (sameWith_pairs.map _ (hsame _ _)).2 _ n hframes hiterations

/-- Where all that is rendered with no directive left out comes to the same, and so do items of
walks and bodies of macros, tags do. -/
theorem sameWith_tagStep (hother : ∀ t view suppressed, suppressed ≠ .none →
    inner' t view suppressed = inner t view suppressed) (t : Tag) (view : Nat)
    (suppressed : Suppressed) : SameWith frames iterations (tagStep e inner t view suppressed)
      (tagStep e inner' t view suppressed) := by
  have hitem : ({ suppressed with walk := true } : Suppressed) ≠ .none := fun h => by
    cases congrArg Suppressed.walk h
  have hbody : (⟨false, true⟩ : Suppressed) ≠ .none := fun h => by
    cases congrArg Suppressed.definition h
  have hlevel : Level e view view Eq (SameWith frames iterations) := sameWith_level e view
  have houtput (c : Tag) : SameWith frames iterations (inner.output c view .none)
      (inner'.output c view .none) := sameWith_pairs.map _ (hsame c view)
  have hkind : SameWith frames iterations (kind e inner view t) (kind e inner' view t) :=
    hlevel.kind (C := Eq) (fun hc => .inr (hc ▸ alike_eq _)) (fun hc _ => hc ▸ houtput _)
      (alike_eq t) (fun file _ => sameWith_inclusion hgrowing hsame view t file)
      fun file name source _ => .refl (keeping_dictionary e view t file name source).growing
  refine hlevel.tagStep_of_walk (C := Eq) (fun hc => .inr (hc ▸ alike_eq _))
    (fun hc _ => hc ▸ houtput _) (alike_eq t) (fun d _ _ => ?_) hkind (fun name _ => ?_)
    fun name _ all => ?_
  · rw [walk_congr (hother _ _ _ hitem) d]
    exact .refl (growing_walk e hgrowing view t d suppressed)
  · exact .refl (steps_modify fun s => s.grows_defineMacro name _)
  · rw [invoke_congr fun t view => hother t view _ hbody]
    exact .refl (growing_invoke hgrowing view t name all)

end

-- ---------------------------------------------------------------------------
-- What takes place
-- ---------------------------------------------------------------------------

/-- What takes place in a rendering starts with its frames and walks, unless it is an item of a walk
or the body of a macro. -/
theorem Enters.stays {inner : Renderer}
    (hgrowing : ∀ t view suppressed, Growing (inner t view suppressed)) {c c' : Rendering}
    (h : Enters e inner c c') (hplain : c'.suppressed = .none) :
    c'.session.frames = c.session.frames ∧ c'.session.iterations = c.session.iterations := by
  obtain ⟨outcome, hdiffers⟩ := h
  by_contra hmoved
  have hsame (t : Tag) (view : Nat) :
      SameWith c.session.frames c.session.iterations (inner t view .none)
        (inner.replace c' outcome t view .none) := by
    refine ⟨hgrowing t view .none, fun s m hframes hiterations => if_neg ?_⟩
    rintro rfl
    exact hmoved ⟨hframes, hiterations⟩
  have hother (t : Tag) (view : Nat) (suppressed : Suppressed) (hne : suppressed ≠ .none) :
      inner.replace c' outcome t view suppressed = inner t view suppressed := by
    funext s m
    refine if_neg ?_
    rintro rfl
    exact hne hplain
  have htag := sameWith_tagStep (e := e) hgrowing hsame hother c.tag c.view c.suppressed
  exact hdiffers (congrArg Prod.fst (htag.2 c.session c.memory rfl rfl))

end Render

namespace Rendering

variable {e : Engine} {c c' : Rendering} {s : Session} {m : Memory}

/-- What is rendered within a rendering, at any depth and with the depth that is left for it, as far
as the items of walks and the bodies of macros. -/
inductive Encloses (e : Engine) (depth : Nat) (c : Rendering) : Nat → Rendering → Prop
  | self : Encloses e depth c depth c
  | within {left : Nat} {c' c'' : Rendering} (h : Encloses e depth c (left + 1) c')
      (henters : Enters e (Render.tag e left) c' c'') (hplain : c''.suppressed = .none) :
      Encloses e depth c left c''

/-- All that is enclosed starts with the same frames and walks. -/
theorem Encloses.stays {depth left : Nat} (h : c.Encloses e depth left c') :
    c'.session.frames = c.session.frames ∧ c'.session.iterations = c.session.iterations := by
  induction h with
  | self => exact ⟨rfl, rfl⟩
  | @within left _ _ _ henters hplain ih =>
    have hstays := henters.stays (fun t view => growing_tag e view left t) hplain
    exact ⟨hstays.1.trans ih.1, hstays.2.trans ih.2⟩

/-- All states of a rendering, and of what it encloses, have the frames and walks that it starts
with. -/
theorem Encloses.visits {depth left : Nat} (h : c.Encloses e depth (left + 1) c')
    (hs : c'.Visits e (Render.tag e left) s m) :
    s.frames = c.session.frames ∧ s.iterations = c.session.iterations := by
  have hgrows := grows_of_visits (fun t view => growing_tag e view left t) hs
  exact ⟨hgrows.frames.trans h.stays.1, hgrows.iterations.trans h.stays.2⟩

end Rendering

end XmlTemplate
