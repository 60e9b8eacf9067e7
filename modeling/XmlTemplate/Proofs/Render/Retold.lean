import XmlTemplate.Proofs.Engine.Steady
import XmlTemplate.Proofs.Render.Attachment
import XmlTemplate.Proofs.Render.Depth
import XmlTemplate.Proofs.Render.Names
import XmlTemplate.Proofs.Render.Order
import XmlTemplate.Proofs.Template.Search

/-!
# Engines with templates under other names

Two engines have templates that differ in names only that are not written, and files to be shown
that do not differ. Their renders go side by side: the sessions differ at most in such names.
-/

namespace XmlTemplate

/-- The view with the names that are written, and no others. -/
def View.unnamed (v : View) : View := { v with template := v.template.unnamed }

/-- The session with the names that are written, and no others. -/
def Session.unnamed (s : Session) : Session := { s with views := s.views.map View.unnamed }

-- ---------------------------------------------------------------------------
-- Views
-- ---------------------------------------------------------------------------

namespace Views

theorem path_unnamed (views : Views) (i : Nat) :
    path (views.map View.unnamed) i = views.path i := by
  unfold path
  rw [List.getElem?_map]
  cases views[i]? <;> rfl

theorem parent?_unnamed (views : Views) (i : Nat) :
    parent? (views.map View.unnamed) i = views.parent? i := by
  unfold parent?
  rw [List.getElem?_map]
  cases views[i]? <;> rfl

theorem translate_unnamed (views : Views) (i : Nat) (key : String) (name : Option String) :
    translate (views.map View.unnamed) i key name = views.translate i key name := by
  refine translate_congr (fun i => ?_) i key
  rw [List.getElem?_map, Option.map_map]
  rfl

theorem modify_unnamed (f : View → View) (hf : ∀ v, f v.unnamed = (f v).unnamed) (views : Views)
    (i : Nat) :
    List.modify (views.map View.unnamed) i f = (List.modify views i f).map View.unnamed := by
  apply List.ext_getElem?
  intro j
  simp only [List.getElem?_map, List.getElem?_modify]
  cases views[j]? with
  | none => rfl
  | some v => by_cases hij : i = j <;> simp [hij, hf]

theorem attachTopmost?_unnamed (name : String) (d : Dictionary) (views : Views) (i : Nat) :
    attachTopmost? name d (views.map View.unnamed) i =
      (attachTopmost? name d views i).map (List.map View.unnamed) := by
  induction i using Nat.strongRecOn with
  | ind i ih =>
    cases hv : views[i]? with
    | none =>
      rw [attachTopmost?, attachTopmost?, List.getElem?_map, hv]
      rfl
    | some v =>
      have hv' : (views.map View.unnamed)[i]? = some v.unnamed := by rw [List.getElem?_map, hv]; rfl
      have hhas : v.unnamed.has name = v.has name := rfl
      rw [attachTopmost?_eq name d hv, attachTopmost?_eq name d hv', parent?_unnamed, hhas,
        modify_unnamed (View.add (some name) d) fun _ => rfl]
      cases hp : views.parent? i with
      | none => by_cases h : v.has name <;> simp [h]
      | some p =>
        simp only [ih p (parent?_lt hp), Option.map_or]
        by_cases h : v.has name <;> simp [h]

theorem attach_unnamed (name : Option String) (d : Dictionary) (i : Nat) (views : Views) :
    attach name d i (views.map View.unnamed) = (attach name d i views).map View.unnamed := by
  cases name with
  | none => exact modify_unnamed (View.add none d) (fun _ => rfl) views i
  | some name =>
    simp only [attach, attachTopmost?_unnamed]
    cases attachTopmost? name d views i with
    | none => exact modify_unnamed (View.replace name d) (fun _ => rfl) views i
    | some _ => rfl

end Views

namespace Session

theorem location_unnamed (view line : Nat) (s : Session) :
    s.unnamed.location view line = s.location view line := by
  unfold location
  rw [show s.unnamed.views = s.views.map View.unnamed from rfl, Views.path_unnamed]

theorem mount_unnamed (target : String) (v : Value) (s : Session) :
    (s.mount target v).unnamed = s.unnamed.mount target v := by
  obtain ⟨_, root, _⟩ := s
  cases root <;> rfl

theorem addView_unnamed (template : Template) (parent : Option Nat) (s : Session) :
    (s.addView template parent).unnamed = s.unnamed.addView template.unnamed parent := by
  unfold unnamed addView
  simp [View.unnamed]

theorem find?_unnamed (view id : Nat) (s : Session) :
    (s.unnamed.views[view]?).bind (fun v => v.template.find? id) =
      ((s.views[view]?).bind fun v => v.template.find? id).map Tag.unnamed := by
  rw [show s.unnamed.views = s.views.map View.unnamed from rfl, List.getElem?_map]
  cases s.views[view]? with
  | none => rfl
  | some v => exact v.template.find?_unnamed id

/-- What does not depend on names that are not written is the same. -/
theorem eq_of_unnamed {α : Type} {s s' : Session} (h : s'.unnamed = s.unnamed)
    (see : Session → α) (hsee : ∀ s : Session, see s.unnamed = see s) : see s' = see s := by
  rw [← hsee s', h, hsee]

end Session

-- ---------------------------------------------------------------------------
-- Engines
-- ---------------------------------------------------------------------------

/-- What loading a path comes to, with the names that are written and no others. -/
def Engine.loadUnnamed (e : Engine) (path : String) (m : Memory) : Except Fault Template :=
  (e.load path m).1.map fun compiled => compiled.template.unnamed

/-- With another source and another memory, the engine has the same templates up to names that are
not written, shows the same files in them, and has the same dictionaries. -/
structure Engine.Retells (e : Engine) (m : Memory) (source : Source) (m' : Memory) : Prop where
  steady : e.Steady m
  steady' : Steady { e with source := source } m'
  parsed : m'.parsed = m.parsed
  load (path : String) : loadUnnamed { e with source := source } path m' = e.loadUnnamed path m
  read {path : String} {compiled : Compiled} (hload : (e.load path m).1 = .ok compiled) {t : Tag}
    (ht : t ∈ compiled.template.root.tags) {file : String} (hkind : t.kind = .verbatim file) :
    (source.read m'.files (Path.resolve compiled.template.path file)).map Revision.text =
      (e.source.read m.files (Path.resolve compiled.template.path file)).map Revision.text
  loadDictionary (language file : String) :
    (Engine.loadDictionary { e with source := source } language file m').1 =
      (e.loadDictionary language file m).1

namespace Render

/-- Two sessions that differ at most in names that are not written, of templates that were
loaded. -/
structure Retold (e : Engine) (m₀ : Memory) (source : Source) (m₀' : Memory)
    (known : List Template) (s : Session) (m : Memory) (s' : Session) (m' : Memory) : Prop where
  session : s'.unnamed = s.unnamed
  views : s.views.map (·.template) = known
  loaded : ∀ template ∈ known, ∃ path compiled,
    (e.load path m₀).1 = .ok compiled ∧ compiled.template = template
  functions : ∀ name f, s.functions.get? name = some f → e.function? name = some f
  parsed : m'.parsed = m.parsed
  asked : e.Asked m₀ m
  asked' : Engine.Asked { e with source := source } m₀' m'

/-- The renders of two engines whose sessions differ in such names only. They stop in the same
way. -/
def retold (e : Engine) (m₀ : Memory) (source : Source) (m₀' : Memory) : Simulation where
  World := List Template
  le := (· <+: ·)
  refl _ := List.prefix_rfl
  trans := List.IsPrefix.trans
  Rel := Retold e m₀ source m₀'
  Stops stop stop' := stop' = stop
  first := False
  second := False

variable {e : Engine} {m₀ m₀' : Memory} {source : Source} {known : List Template}
  {s s' : Session} {m m' : Memory} {A : List Template → Prop} {view : Nat} {template : Template}

namespace Retold

variable (h : Retold e m₀ source m₀' known s m s' m')

include h

theorem see {α : Type} (see : Session → α) (hsee : ∀ s : Session, see s.unnamed = see s) :
    see s' = see s :=
  Session.eq_of_unnamed h.session see hsee

theorem location_eq (view line : Nat) : s'.location view line = s.location view line :=
  h.see _ (Session.location_unnamed view line)

theorem path_eq (view : Nat) : s'.views.path view = s.views.path view :=
  h.see (fun s => s.views.path view) fun s => s.views.path_unnamed view

/-- A change of both sessions that does not depend on the names. -/
theorem change {f : Session → Session} (hf : ∀ s : Session, f s.unnamed = (f s).unnamed)
    (hviews : (f s).views.map (·.template) = s.views.map (·.template))
    (hfunctions : (f s).functions = s.functions) : Retold e m₀ source m₀' known (f s) m (f s') m' :=
  { h with
    session := by rw [← hf, h.session, hf]
    views := hviews.trans h.views
    functions := hfunctions ▸ h.functions }

theorem lookedUp {name : String} {f : Function} (hf : e.function? name = some f) :
    Retold e m₀ source m₀' known (s.lookedUp name f) m (s'.lookedUp name f) m' :=
  { h with
    session := congrArg (Session.lookedUp name f) h.session
    functions := Session.functions_lookedUp hf h.functions }

theorem addView {other other' : Template} (hother : other'.unnamed = other.unnamed)
    (hloaded : ∃ path compiled, (e.load path m₀).1 = .ok compiled ∧ compiled.template = other)
    (parent : Option Nat) : Retold e m₀ source m₀' (known ++ [other]) (s.addView other parent) m
      (s'.addView other' parent) m' :=
  { h with
    session := by
      rw [Session.addView_unnamed, Session.addView_unnamed, h.session, hother]
    views := by simp [Session.addView, h.views]
    loaded := List.forall_mem_append.2 ⟨h.loaded, List.forall_mem_singleton.2 hloaded⟩ }

theorem path (hat : IsAt view template known) : s.views.path view = template.path := by
  rw [IsAt, ← h.views, List.getElem?_map, Option.map_eq_some_iff] at hat
  obtain ⟨v, hv, rfl⟩ := hat
  rw [Views.path, hv]

end Retold

theorem isAt_lasts_retold (view : Nat) (template : Template) :
    (retold e m₀ source m₀').Lasts (IsAt view template) :=
  isAt_lasts e m₀ [] view template

/-- Both sessions change in a way that shows in neither templates nor functions. -/
theorem retold_modify {f : Session → Session} (hf : ∀ s : Session, f s.unnamed = (f s).unnamed)
    (hviews : ∀ s, (f s).views = s.views) (hfunctions : ∀ s, (f s).functions = s.functions) :
    (retold e m₀ source m₀').Holds A (modify f) (modify f) :=
  Simulation.holds_modify_self fun _ _ _ _ _ hrel =>
    Retold.change hrel hf (congrArg _ (hviews _)) (hfunctions _)

theorem retold_atPlaces (place : Place) : (retold e m₀ source m₀').AtPlaces e A place place where
  stops {f} _ _ s _ s' _ hrel _ := by
    exact congrArg (Stop.fault ∘ f) (Retold.location_eq hrel place.view place.line)
  looksUp name _ s _ s' _ hrel _ := by
    have hfunctions : s'.functions = s.functions := Retold.see hrel Session.functions fun _ => rfl
    refine Simulation.looksUp_of_lookedUp (hrel.functions name) ?_ fun f hf => hrel.lookedUp hf
    rw [hfunctions]
    exact hrel.functions name
  called {name f} _ args _ s _ s' _ hrel _ := by
    have hanchor : anchor e place s' = anchor e place s :=
      Retold.see hrel (anchor e place) fun s => by
        unfold anchor
        rw [Session.location_unnamed]
        rfl
    rw [hanchor]
    cases hresult : f (anchor e place s) args with
    | ok v => exact .inl ⟨v, rfl, rfl⟩
    | error stop => exact .inr ⟨stop, stop, rfl, rfl, rfl⟩
  call _ _ _ _ _ hrel :=
    Retold.change (f := fun s => { s with calls := s.calls + 1 }) hrel (fun _ => rfl) rfl rfl

/-- Both engines are asked, and come to the same. -/
theorem Retold.consult {α : Type} (h : Retold e m₀ source m₀' known s m s' m') (place : Place)
    {use use' : Memory → Except Fault α × Memory} (hsame : (use' m').1 = (use m).1)
    (hafter : Retold e m₀ source m₀' known s (use m).2 s' (use' m').2) :
    (retold e m₀ source m₀').Ends known (consult place use s m) (consult place use' s' m') := by
  rw [consult_apply, consult_apply, h.location_eq]
  generalize use m = r at hsame hafter
  generalize use' m' = r' at hsame hafter
  obtain ⟨result, n⟩ := r
  obtain ⟨result', n'⟩ := r'
  cases hsame
  cases result with
  | ok a => exact .ok List.prefix_rfl hafter
  | error fault => exact .stop rfl

/-- The text of a file of a source. -/
def fileText (source : Source) (path : String) (m : Memory) : Except Fault String × Memory :=
  ((source.read m.files path).map Revision.text, m)

theorem verbatim_eq (e : Engine) (view : Nat) (t : Tag) (file : String) :
    verbatim e view t file = (do
      let s ← get
      consult (t.place view) (fileText e.source (Path.resolve (s.views.path view) file))) := by
  funext s m
  simp only [verbatim, bind_apply, get_apply, consult_apply, fileText]
  cases e.source.read m.files (Path.resolve (s.views.path view) file) <;> rfl

/-- A file is shown in both renders that has the same text. -/
theorem retold_verbatim {first second : Source} {file : String} (t : Tag)
    (hread : ∀ {known s m s' m'}, Retold e m₀ source m₀' known s m s' m' → A known →
      (second.read m'.files (Path.resolve (s.views.path view) file)).map Revision.text =
        (first.read m.files (Path.resolve (s.views.path view) file)).map Revision.text) :
    (retold e m₀ source m₀').Holds A (verbatim { e with source := first } view t file)
      (verbatim { e with source := second } view t file) := by
  rw [verbatim_eq, verbatim_eq]
  refine Simulation.holds_get_bind fun known s m s' m' hrel hA => ?_
  rw [Retold.path_eq hrel]
  exact Retold.consult hrel _ (hread hrel hA) hrel

section

variable (hlasts : (retold e m₀ source m₀').Lasts A)

include hlasts

/-- All steps go side by side that neither include templates nor show files, nor attach dictionaries
or call macros. -/
theorem retold_along (view : Nat) : Along { e with source := .memory .empty } view view Eq
    ((retold e m₀ source m₀').Holds A) where
  toPairs := Simulation.Holds.pairs hlasts
  evaluate {line _} hline expr hexpr := by
    subst hline
    exact (retold_atPlaces ⟨view, line⟩).evaluate hlasts (fun _ _ _ _ _ hrel _ key _ =>
      Retold.see hrel (Session.lookup key) fun _ => rfl) hexpr
  evaluateAttribute {line _} hline raw _ := by
    subst hline
    refine (Simulation.Holds.pairs hlasts).bind
      ((retold_atPlaces ⟨view, line⟩).parse (fun _ _ _ _ _ hrel => hrel.parsed)
        (fun _ _ _ _ _ hrel exprs => ?_) _) fun expr => ?_
    · exact { hrel with
        parsed := rfl
        asked := hrel.asked.parsed exprs
        asked' := hrel.asked'.parsed exprs }
    · exact (retold_atPlaces ⟨view, line⟩).evaluate hlasts (fun _ _ _ _ _ hrel _ key _ =>
        Retold.see hrel (Session.lookup key) fun _ => rfl) (startsWithin_true expr)
  failAt hline f hf := by
    subst hline
    exact (retold_atPlaces _).failAt hf
  warnAt {line _} hline f _ := by
    subst hline
    refine retold_modify (fun s => ?_) (fun _ => rfl) fun _ => rfl
    rw [Session.location_unnamed]
    rfl
  language hfg := Simulation.holds_see (fun _ _ _ _ _ hrel _ =>
    Retold.see hrel Session.language fun _ => rfl) hfg
  translate {_ key dict _ _} hfg := Simulation.holds_see (fun _ _ _ _ _ hrel _ =>
    Retold.see hrel (fun s => s.views.translate view key dict) fun s =>
      s.views.translate_unnamed view key dict) hfg
  findFeed {line _} hline feedClass parameters := by
    subst hline
    exact (retold_atPlaces ⟨view, line⟩).findFeed
      (fun _ _ _ _ _ hrel => Retold.see hrel Session.feedClasses fun _ => rfl)
      (fun _ _ _ _ _ hrel classes =>
        Retold.change (f := fun s => { s with feedClasses := classes }) hrel (fun _ => rfl) rfl rfl)
      feedClass parameters
  verbatim {t t'} hline file := by
    rw [verbatim_of_line hline]
    exact retold_verbatim t fun _ _ => rfl
  mount target v := by
    have hmount (s : Session) :
        (s.mount target v).views = s.views ∧ (s.mount target v).functions = s.functions := by
      unfold Session.mount
      split <;> exact ⟨rfl, rfl⟩
    exact retold_modify (fun s => (s.mount_unnamed target v).symm) (fun s => (hmount s).1)
      fun s => (hmount s).2
  recordSlot _ := retold_modify (fun _ => rfl) (fun _ => rfl) fun _ => rfl
  plug _ _ _ := retold_modify (fun _ => rfl) (fun _ => rfl) fun _ => rfl
  startWalk _ := retold_modify (fun _ => rfl) (fun _ => rfl) fun _ => rfl
  outside := retold_modify (fun _ => rfl) (fun _ => rfl) fun _ => rfl
  enterItem _ := retold_modify (fun _ => rfl) (fun _ => rfl) fun _ => rfl
  leaveFrame := retold_modify (fun _ => rfl) (fun _ => rfl) fun _ => rfl

end

-- ---------------------------------------------------------------------------
-- Templates, dictionaries and macros
-- ---------------------------------------------------------------------------

section

variable (hretells : e.Retells m₀ source m₀')

include hretells

/-- Loading a path comes to the same all the time, up to names that are not written. -/
theorem Retold.load (h : Retold e m₀ source m₀' known s m s' m') (path : String) :
    (∃ fault, (e.load path m).1 = .error fault ∧
        (Engine.load { e with source := source } path m').1 = .error fault) ∨
      ∃ compiled compiled', (e.load path m).1 = .ok compiled ∧
        (Engine.load { e with source := source } path m').1 = .ok compiled' ∧
        compiled'.template.unnamed = compiled.template.unnamed ∧
        ∃ path first, (e.load path m₀).1 = .ok first ∧ first.template = compiled.template := by
  have hfirst := hretells.steady.load h.asked path
  have hsame : ((Engine.load { e with source := source } path m').1.map Compiled.template).map
      Template.unnamed = ((e.load path m).1.map Compiled.template).map Template.unnamed := by
    rw [hretells.steady'.load h.asked' path, hfirst]
    have hload := hretells.load path
    unfold Engine.loadUnnamed at hload
    generalize (e.load path m₀).1 = r at hload
    generalize (Engine.load { e with source := source } path m₀').1 = r' at hload
    cases r <;> cases r' <;> exact hload
  generalize (Engine.load { e with source := source } path m').1 = r' at hsame
  generalize (e.load path m).1 = r at hfirst hsame
  cases r with
  | error fault =>
    cases r' with
    | error fault' =>
      cases hsame
      exact .inl ⟨fault, rfl, rfl⟩
    | ok compiled' => cases hsame
  | ok compiled =>
    cases r' with
    | error fault' => cases hsame
    | ok compiled' =>
      refine .inr ⟨compiled, compiled', rfl, rfl, Except.ok.inj hsame, path, ?_⟩
      cases hload : (e.load path m₀).1 with
      | error fault =>
        rw [hload] at hfirst
        cases hfirst
      | ok first =>
        rw [hload] at hfirst
        exact ⟨first, rfl, (Except.ok.inj hfirst).symm⟩

omit hretells in
theorem Retold.afterLoad (h : Retold e m₀ source m₀' known s m s' m') (path : String) :
    Retold e m₀ source m₀' known s (e.load path m).2 s'
      (Engine.load { e with source := source } path m').2 :=
  { h with
    parsed := by rw [Engine.parsed_load, Engine.parsed_load, h.parsed]
    asked := h.asked.load path
    asked' := h.asked'.load path }

theorem retold_dictionary (t : Tag) (file : String) (name language : Option String) :
    (retold e m₀ source m₀').Holds (IsAt view template)
      (dictionary e view t file name language) (dictionary e view t file name language) := by
  refine (retold_along (isAt_lasts_retold view template) view).attaching t t file name language
    (fun language known s m s' m' hrel _ => ?_) (fun fault => ?_) fun d => ?_
  · have hsame : (e.loadDictionary language file m').1 = (e.loadDictionary language file m).1 := by
      have hsecond := hretells.steady'.loadDictionary hrel.asked' language file
      rw [hretells.steady.loadDictionary hrel.asked, ← hretells.loadDictionary]
      exact hsecond
    exact Retold.consult hrel _ hsame
      { hrel with
        parsed := hrel.parsed
        asked := hrel.asked.loadDictionary language file
        asked' := hrel.asked'.loadDictionary language file }
  · exact retold_modify (fun _ => rfl) (fun _ => rfl) fun _ => rfl
  · refine Simulation.holds_modify_self fun known s m s' m' hrel => ?_
    refine Retold.change (f := fun s => { s with views := s.views.attach name d view }) hrel
      (fun s => ?_) ?_ rfl
    · exact congrArg (fun views => { s with views := views }) (s.views.attach_unnamed name d view)
    · have hshape := congrArg (List.map Prod.fst) (s.views.map_shape_attach name d view)
      rw [List.map_map, List.map_map] at hshape
      exact hshape

end

/-- The two renderers go side by side on the tags of all views. -/
def RetoldBy (e : Engine) (m₀ : Memory) (source : Source) (m₀' : Memory) (inner inner' : Renderer) :
    Prop :=
  ∀ template view t suppressed, t ∈ template.root.tags →
    (retold e m₀ source m₀').Holds (IsAt view template) (inner t view suppressed)
      (inner' t view suppressed)

namespace RetoldBy

variable {inner inner' : Renderer} (h : RetoldBy e m₀ source m₀' inner inner')

include h

theorem output {t : Tag} (ht : t ∈ template.root.tags) (suppressed : Suppressed) :
    (retold e m₀ source m₀').Holds (IsAt view template) (inner.output t view suppressed)
      (inner'.output t view suppressed) :=
  (Simulation.Holds.pairs (isAt_lasts_retold view template)).map _
    (h template view t suppressed ht)

theorem inside {t : Tag} (ht : t ∈ template.root.tags) {c c' : Tag} (hc : t.IsInside c c') :
    (retold e m₀ source m₀').Holds (IsAt view template) (inner.output c view .none)
      (inner'.output c' view .none) := by
  obtain ⟨rfl, hc⟩ := hc
  exact h.output (Tag.mem_tags_of_mem_contentTags ht hc) .none

section

variable (hnames : ∀ t t' : Tag, t'.unnamed = t.unnamed → inner' t' = inner' t)

include hnames

/-- The bodies of a macro go side by side up to the end of the call. -/
theorem body {u u' : Tag} (hu : u ∈ template.root.tags) (hunnamed : u'.unnamed = u.unnamed)
    {s s' : Session} (hiterations : s'.iterations = s.iterations) :
    (retold e m₀ source m₀').Holds (IsAt view template) (do
        let text ← inner.output u view ⟨false, true⟩
        modify (Session.leaveMacro s)
        return text : Render String) (do
        let text ← inner'.output u' view ⟨false, true⟩
        modify (Session.leaveMacro s')
        return text) := by
  have hpairs : Pairs Render ((retold e m₀ source m₀').Holds (IsAt view template)) :=
    Simulation.Holds.pairs (isAt_lasts_retold view template)
  have hleave : Session.leaveMacro s' = Session.leaveMacro s := by
    unfold Session.leaveMacro
    rw [hiterations]
  unfold Renderer.output
  rw [hnames u u' hunnamed, hleave]
  exact hpairs.bind (h.output hu _) fun text => hpairs.bind
    (retold_modify (fun _ => rfl) (fun _ => rfl) fun _ => rfl) fun _ => hpairs.pure text

theorem invoke (t : Tag) (name : String) (all : Table Value) :
    (retold e m₀ source m₀').Holds (IsAt view template) (invoke inner view t name all)
      (Render.invoke inner' view t name all) := by
  rintro (known : List Template) s m s' m' hrel hat
  have hmacros : s'.macros = s.macros := Retold.see hrel Session.macros fun _ => rfl
  rw [invoke_apply, invoke_apply, hmacros, Retold.location_eq hrel]
  cases hget : s.macros.get? name with
  | none =>
    exact .ok List.prefix_rfl (Retold.change (f := Session.warn _) hrel (fun _ => rfl) rfl rfl)
  | some body =>
    have hfind := (s'.find?_unnamed body.view body.tag).symm.trans
      ((congrArg (fun s : Session => (s.views[body.view]?).bind fun v => v.template.find? body.tag)
        hrel.session).trans (s.find?_unnamed body.view body.tag))
    simp only
    cases hfound : (s.views[body.view]?).bind fun v => v.template.find? body.tag with
    | none =>
      rw [hfound] at hfind
      rw [Option.map_eq_none_iff.1 hfind]
      exact .ok List.prefix_rfl hrel
    | some u =>
      rw [hfound] at hfind
      obtain ⟨u', hfound', hu'⟩ := Option.map_eq_some_iff.1 hfind
      obtain ⟨v, hv, hu⟩ := Option.bind_eq_some_iff.1 hfound
      have hat' : IsAt body.view v.template known := by
        rw [IsAt, ← hrel.views, List.getElem?_map, hv]
        rfl
      have hiterations : s'.iterations = s.iterations :=
        Retold.see hrel Session.iterations fun _ => rfl
      rw [hfound']
      exact h.body hnames (Tag.mem_tags_of_find? hu).1 hu' hiterations
        (Retold.change (f := Session.enterMacro all) hrel (fun _ => rfl) rfl rfl) hat'

variable (hretells : e.Retells m₀ source m₀')

include hretells

theorem inclusion (t : Tag) (file : String) :
    (retold e m₀ source m₀').Holds (IsAt view template) (inclusion e inner view t file)
      (Render.inclusion { e with source := source } inner' view t file) := by
  rintro (known : List Template) s m s' m' hrel -
  have hlength : s'.views.length = s.views.length :=
    Retold.see hrel (fun s => s.views.length) fun s => List.length_map ..
  rw [inclusion_apply, inclusion_apply, Retold.path_eq hrel, Retold.location_eq hrel, hlength]
  have hload := Retold.load hretells hrel (Path.resolve (s.views.path view) file)
  have hafter := Retold.afterLoad hrel (Path.resolve (s.views.path view) file)
  generalize e.load (Path.resolve (s.views.path view) file) m = r at hload hafter
  generalize Engine.load { e with source := source } (Path.resolve (s.views.path view) file) m' = r'
    at hload hafter
  obtain ⟨answer, n⟩ := r
  obtain ⟨answer', n'⟩ := r'
  rcases hload with
    ⟨fault, hfault, hfault'⟩ | ⟨compiled, compiled', hload, hload', hunnamed, hfirst⟩
  · cases hfault
    cases hfault'
    exact .stop rfl
  · cases hload
    cases hload'
    have hroot : inner' compiled'.template.root = inner' compiled.template.root :=
      hnames _ _ (congrArg Template.root hunnamed)
    have hat : IsAt s.views.length compiled.template (known ++ [compiled.template]) := by
      rw [IsAt, ← hrel.views, List.getElem?_append_right (by simp)]
      simp
    refine .mono (List.prefix_append known [compiled.template]) ?_
    simp only [Renderer.output, hroot]
    exact h.output compiled.template.root.mem_tags_self .none
      (Retold.addView hafter hunnamed hfirst (some view)) hat

section

variable {t : Tag} (ht : t ∈ template.root.tags)

include ht

omit hnames in
theorem kind_of_other (hinclusion : ∀ file, t.kind ≠ .inclusion file)
    (hverbatim : ∀ file, t.kind ≠ .verbatim file) :
    (retold e m₀ source m₀').Holds (IsAt view template) (kind e inner view t)
      (Render.kind { e with source := source } inner' view t) := by
  rw [kind_source hinclusion hverbatim e source inner' view,
    ← kind_source hinclusion hverbatim e (.memory .empty) inner view,
    ← kind_source hinclusion hverbatim e (.memory .empty) inner' view]
  exact (retold_along (isAt_lasts_retold view template) view).kind
    (fun hc => .inr hc.alike) (fun hc _ => h.inside ht hc) t.alike_isInside
    (fun file hfile => absurd hfile (hinclusion file))
    fun file name language _ => retold_dictionary hretells t file name language

theorem kind : (retold e m₀ source m₀').Holds (IsAt view template) (kind e inner view t)
    (Render.kind { e with source := source } inner' view t) := by
  by_cases hinclusion : ∃ file, t.kind = .inclusion file
  · obtain ⟨file, hfile⟩ := hinclusion
    unfold Render.kind
    simp only [hfile]
    exact h.inclusion hnames hretells t file
  · by_cases hverbatim : ∃ file, t.kind = .verbatim file
    · obtain ⟨file, hfile⟩ := hverbatim
      unfold Render.kind
      simp only [hfile]
      refine retold_verbatim t fun {known s m s' m'} hrel hat => ?_
      obtain ⟨path, compiled, hload, rfl⟩ := hrel.loaded template (List.mem_of_getElem? hat)
      rw [hrel.path hat, hretells.steady.read hrel.asked]
      exact (congrArg (Except.map Revision.text) (hretells.steady'.read hrel.asked' _)).trans
        (hretells.read hload ht hfile)
    · exact h.kind_of_other hretells ht (fun file hfile => hinclusion ⟨file, hfile⟩)
        fun file hfile => hverbatim ⟨file, hfile⟩

theorem tagStep (suppressed : Suppressed) : (retold e m₀ source m₀').Holds (IsAt view template)
    (tagStep e inner t view suppressed)
    (Render.tagStep { e with source := source } inner' t view suppressed) :=
  (retold_along (isAt_lasts_retold view template) view).tagStep_of_kind
    (fun hc => .inr hc.alike) (fun hc _ => h.inside ht hc) t.alike_isInside
    (fun _ _ => h.output ht _) (h.kind hnames hretells ht)
    (fun _ _ => retold_modify (fun _ => rfl) (fun _ => rfl) fun _ => rfl)
    fun name _ all => h.invoke hnames t name all

end

end

end RetoldBy

/-- Renders of tags go side by side. -/
theorem retoldBy_tag (hretells : e.Retells m₀ source m₀') (depth : Nat) :
    RetoldBy e m₀ source m₀' (tag e depth) (tag { e with source := source } depth) := by
  induction depth with
  | zero => exact fun _ _ _ _ _ _ _ _ _ _ _ _ => .stop rfl
  | succ depth ih =>
    refine fun _ _ _ suppressed ht => ih.tagStep (fun t t' h => ?_) hretells ht suppressed
    rw [← tag_unnamed _ _ t', h, tag_unnamed]

/-- Before anything is rendered, both sessions are the same. -/
theorem Retold.start (hretells : e.Retells m₀ source m₀') (data : Value)
    (language : Option String) :
    Retold e m₀ source m₀' [] (.start data language) m₀ (.start data language) m₀' where
  session := rfl
  views := rfl
  loaded := nofun
  functions _ _ hget := by cases hget
  parsed := hretells.parsed
  asked := .refl m₀
  asked' := .refl m₀'

/-- Renders of pages go side by side whose templates differ in such names only. -/
theorem retold_page (hretells : e.Retells m₀ source m₀') {page page' : Template}
    (hpage : page'.unnamed = page.unnamed)
    (hloaded : ∃ path compiled, (e.load path m₀).1 = .ok compiled ∧ compiled.template = page)
    (h : Retold e m₀ source m₀' [] s m s' m') (depth : Nat) :
    (retold e m₀ source m₀').Ends [page] (Render.page e depth page s m)
      (Render.page { e with source := source } depth page' s' m') := by
  have hroot : tag { e with source := source } depth page'.root =
      tag { e with source := source } depth page.root := by
    rw [← tag_unnamed _ _ page'.root, ← tag_unnamed _ _ page.root]
    exact congrArg (tag _ depth) (congrArg Template.root hpage)
  have hinstructions : page'.unnamed.instructions = page.unnamed.instructions := by rw [hpage]
  change page'.instructions = page.instructions at hinstructions
  rw [page_apply, page_apply, hinstructions]
  unfold Renderer.output
  rw [hroot]
  have hpairs : Pairs Render ((retold e m₀ source m₀').Holds (IsAt 0 page)) :=
    Simulation.Holds.pairs (isAt_lasts_retold 0 page)
  refine hpairs.bind ((retoldBy_tag hretells depth).output page.root.mem_tags_self .none)
    (fun text => ?_) (h.addView hpage hloaded none) rfl
  refine Simulation.holds_get_bind fun known s m s' m' hrel _ => ?_
  have hslots : s'.slots = s.slots := Retold.see hrel Session.slots fun _ => rfl
  have hplugs : s'.plugs = s.plugs := Retold.see hrel Session.plugs fun _ => rfl
  rw [hslots, hplugs]
  exact .ok List.prefix_rfl hrel

end Render

namespace Engine

variable {e : Engine} {m m' : Memory} {source : Source}

/-- Both engines render alike: with the same output and the same warnings, or with the same reason
to stop. -/
theorem Retells.renderFile_eq (h : e.Retells m source m') (path : String) (data : Value)
    (language : Option String) :
    (renderFile { e with source := source } path data language m').1 =
      (e.renderFile path data language m).1 := by
  have hstart := Render.Retold.start h data (language.or e.language)
  have hload := hstart.load h path
  have hafter := hstart.afterLoad path
  simp only [renderFile, render, renderWithin, StateT.run]
  generalize e.load path m = r at hload hafter
  generalize Engine.load { e with source := source } path m' = r' at hload hafter
  obtain ⟨answer, n⟩ := r
  obtain ⟨answer', n'⟩ := r'
  rcases hload with ⟨fault, hfault, hfault'⟩ | ⟨page, page', hpage, hpage', hunnamed, hfirst⟩
  · cases hfault
    cases hfault'
    rfl
  · cases hpage
    cases hpage'
    have hends := Render.retold_page h hunnamed hfirst hafter depthLimit
    simp only
    generalize Render.page e depthLimit page.template _ n = r at hends
    generalize Render.page { e with source := source } depthLimit page'.template _ n' = r' at hends
    cases hends with
    | ok _ hrel =>
      have hwarnings := hrel.see Session.warnings fun _ => rfl
      simp only [hwarnings]
    | stop h => exact congrArg Except.error h
    | first h => exact h.elim
    | second h => exact h.elim

end Engine

end XmlTemplate
