import XmlTemplate.Proofs.Engine.Overlook
import XmlTemplate.Proofs.Function.BuiltIn
import XmlTemplate.Proofs.Path
import XmlTemplate.Proofs.Render.Joint
import XmlTemplate.Proofs.Render.Simulation
import XmlTemplate.Proofs.Template.Matching

/-!
# A part included and in its place

Two renders go over a page side by side. The first one includes a part, and the second one has the
root of the part in place of the inclusion. Their sessions differ in the views, and in the views and
numbers under which macros are known; the names of macros stand for tags that are written alike.
-/

namespace XmlTemplate

/-- What of a session has to do neither with views nor with what is kept by name, and all but the
warnings. -/
def Session.core (s : Session) : Session :=
  { s with views := [], macros := [], functions := [], warnings := [] }

/-- The rest of a session. -/
def Session.rest (s : Session) : Views × Table MacroBody × Table Function × List Fault :=
  (s.views, s.macros, s.functions, s.warnings)

namespace Render

-- ---------------------------------------------------------------------------
-- Tags in the same place
-- ---------------------------------------------------------------------------

/-- The one tag, of the template, includes the part from its folder, and the other one is the root
of the part. -/
structure Replaced (part template : Template) (t t' : Tag) : Prop where
  inclusion : t.IsInclusion template.path part.path
  folder : Path.InSameFolder template.path part.path
  copy : part.root.IsCopy t'

/-- The tags stand in the same place of two templates in one folder, of which the second one may
have the part in place of inclusions. -/
structure Counterpart (part template template' : Template) (t t' : Tag) : Prop where
  numbered : template.IsNumbered
  numbered' : template'.IsNumbered
  folder : Path.InSameFolder template.path template'.path
  mem : t ∈ template.root.tags
  mem' : t' ∈ template'.root.tags
  similar : t.Matches (Replaced part template) t'

/-- The tags stand in the same place and are written alike. -/
abbrev Written (part template template' : Template) : Tag → Tag → Prop :=
  Tag.Alike (fun _ _ => True) (Counterpart part template template')

namespace Counterpart

variable {part template template' : Template} {t t' : Tag}

theorem root (hnumbered : template.IsNumbered) :
    Counterpart part template template template.root template.root where
  numbered := hnumbered
  numbered' := hnumbered
  folder _ := rfl
  mem := template.root.mem_tags_self
  mem' := template.root.mem_tags_self
  similar := template.root.matches_self

theorem written (h : Counterpart part template template' t t')
    (halike : t.Alike (fun _ _ => True) (Tag.Matches (Replaced part template)) t') :
    Written part template template' t t' :=
  halike.imp fun _ _ hc hc' hmatches =>
    { h with
      mem := Tag.mem_tags_trans h.mem (Tag.mem_tags_of_child hc)
      mem' := Tag.mem_tags_trans h.mem' (Tag.mem_tags_of_child hc')
      similar := hmatches }

/-- The root of the part in its own place. -/
theorem ofReplaced (h : Counterpart part template template' t t')
    (hpart : part.IsNumbered) (hreplaced : Replaced part template t t') :
    Counterpart part part template' part.root t' where
  numbered := hpart
  numbered' := h.numbered'
  folder relative := (hreplaced.folder relative).symm.trans (h.folder relative)
  mem := part.root.mem_tags_self
  mem' := h.mem'
  similar := hreplaced.copy.matches

theorem written_of_copy (h : Counterpart part template template' t t') (hcopy : t.IsCopy t') :
    Written part template template' t t' :=
  h.written ((Tag.isCopy_iff.1 hcopy).imp fun _ _ _ _ hc => hc.matches)

theorem cases (h : Counterpart part template template' t t') :
    Replaced part template t t' ∨ Written part template template' t t' :=
  (Tag.matches_iff.1 h.similar).imp_right h.written

end Counterpart

end Render

-- ---------------------------------------------------------------------------
-- Sessions
-- ---------------------------------------------------------------------------

namespace Joint

/-- A view of the first render and its target, and their templates. -/
def Joins (view view' : Nat) (template template' : Template) (w : Joint) : Prop :=
  ∃ l parent, w.links[view]? = some l ∧ l.template = template ∧ l.target = view' ∧
    w.shapes[view']? = some (template', parent)

/-- What a name of a macro stands for in the two renders: nothing, or tags that are written alike
in views that are joined. -/
inductive Lends (part : Template) (w : Joint) : Option MacroBody → Option MacroBody → Prop
  | none : Lends part w none none
  | some {view view' : Nat} {template template' : Template} {t t' : Tag}
      (hjoins : w.Joins view view' template template')
      (h : Render.Counterpart part template template' t t')
      (hwritten : Render.Written part template template' t t') :
      Lends part w (some ⟨view, t.id⟩) (some ⟨view', t'.id⟩)

/-- More views are known. -/
def Within (w w' : Joint) : Prop := w.links <+: w'.links ∧ w.shapes <+: w'.shapes

theorem Within.refl (w : Joint) : w.Within w := ⟨List.prefix_rfl, List.prefix_rfl⟩

theorem Within.trans {u v w : Joint} (h : u.Within v) (k : v.Within w) : u.Within w :=
  ⟨h.1.trans k.1, h.2.trans k.2⟩

theorem within_addLinked (template template' : Template) (parent : Option (Nat × Nat))
    (attaches : Bool) (w : Joint) : w.Within (w.addLinked template template' parent attaches) :=
  ⟨List.prefix_append _ _, List.prefix_append _ _⟩

theorem within_addInlined (template : Template) (view target : Nat) (w : Joint) :
    w.Within (w.addInlined template view target) :=
  ⟨List.prefix_append _ _, List.prefix_rfl⟩

variable {w w' : Joint} {view view' : Nat} {template template' : Template}

theorem Joins.mono (hle : w.Within w') (h : w.Joins view view' template template') :
    w'.Joins view view' template template' := by
  have hkept {α : Type} {as bs : List α} (hle : as <+: bs) {i : Nat} {a : α} (h : as[i]? = some a) :
      bs[i]? = some a := by
    obtain ⟨more, rfl⟩ := hle
    exact (List.getElem?_append_left (List.getElem?_eq_some_iff.1 h).1).trans h
  obtain ⟨l, parent, hl, htemplate, htarget, hshape⟩ := h
  exact ⟨l, parent, hkept hle.1 hl, htemplate, htarget, hkept hle.2 hshape⟩

theorem Lends.mono {part : Template} {body body' : Option MacroBody} (hle : w.Within w')
    (h : w.Lends part body body') : w'.Lends part body body' := by
  cases h with
  | none => exact .none
  | some hjoins h hwritten => exact .some (hjoins.mono hle) h hwritten

end Joint

namespace Render

/-- No dictionary is attached in the template or in what it includes. -/
def IsQuiet (e : Engine) (m₀ : Memory) (template : Template) : Prop :=
  ∀ other u, e.Covers m₀ template template.root other u →
    ∀ file name source, u.kind ≠ .dictionary file name source

/-- The states of the two renders. -/
structure Abreast (e : Engine) (m₀ : Memory) (page part : Template) (R : Memory → Memory → Prop)
    (w : Joint) (s : Session) (m : Memory) (s' : Session) (m' : Memory) : Prop where
  core : s'.core = s.core
  views : s.views = w.expand s'.views
  shapes : s'.views.map View.shape = w.shapes
  sound : w.Sound
  covered : ∀ l ∈ w.links, e.Covers m₀ page page.root l.template l.template.root
  quiet : ∀ l ∈ w.links, l.attaches = false → IsQuiet e m₀ l.template
  functions : ∀ name f, s.functions.get? name = some f → e.function? name = some f
  functions' : ∀ name f, s'.functions.get? name = some f → e.function? name = some f
  macros : ∀ name, w.Lends part (s.macros.get? name) (s'.macros.get? name)
  warnings : List.Forall₂ Fault.Like s.warnings s'.warnings
  parsed : m'.parsed = m.parsed
  related : R m m'

/-- The renders of a page with inclusions and of the page with the part in their place. -/
def abreast (e : Engine) (m₀ : Memory) (page part : Template) (R : Memory → Memory → Prop)
    (first second : Prop) : Simulation where
  World := Joint
  le := Joint.Within
  refl := .refl
  trans := .trans
  Rel := Abreast e m₀ page part R
  Stops := Stop.Like
  first := first
  second := second

variable {e : Engine} {m₀ : Memory} {page part template template' : Template}
variable {R : Memory → Memory → Prop} {first second : Prop}
variable {w w' : Joint} {s s' t t' : Session} {m m' : Memory} {view view' : Nat}

namespace Abreast

/-- What the core of a session shows is the same in both renders. -/
theorem see {α : Type} {f : Session → α} (h : Abreast e m₀ page part R w s m s' m')
    (hf : ∀ s, f s.core = f s) : f s' = f s := by
  rw [← hf s', ← hf s, h.core]

/-- A change of the cores alone. -/
theorem of_rest (h : Abreast e m₀ page part R w s m s' m') (hcore : t'.core = t.core)
    (hrest : t.rest = s.rest) (hrest' : t'.rest = s'.rest) :
    Abreast e m₀ page part R w t m t' m' := by
  simp only [Session.rest, Prod.mk.injEq] at hrest hrest'
  obtain ⟨hviews, hmacros, hfunctions, hwarnings⟩ := hrest
  obtain ⟨hviews', hmacros', hfunctions', hwarnings'⟩ := hrest'
  exact
    { core := hcore
      views := by rw [hviews, hviews', h.views]
      shapes := by rw [hviews', h.shapes]
      sound := h.sound
      covered := h.covered
      quiet := h.quiet
      functions := hfunctions ▸ h.functions
      functions' := hfunctions' ▸ h.functions'
      macros := by
        rw [hmacros, hmacros']
        exact h.macros
      warnings := by
        rw [hwarnings, hwarnings']
        exact h.warnings
      parsed := h.parsed
      related := h.related }

theorem remember {n n' : Memory} (h : Abreast e m₀ page part R w s m s' m')
    (hparsed : n'.parsed = n.parsed) (hrelated : R n n') :
    Abreast e m₀ page part R w s n s' n' :=
  { h with
    parsed := hparsed
    related := hrelated }

theorem warn (h : Abreast e m₀ page part R w s m s' m') {f f' : Fault} (hlike : f.Like f') :
    Abreast e m₀ page part R w (s.warn f) m (s'.warn f') m' :=
  { h with warnings := List.rel_append h.warnings (.cons hlike .nil) }

theorem lookedUp (h : Abreast e m₀ page part R w s m s' m') {name : String} {f : Function}
    (hf : e.function? name = some f) :
    Abreast e m₀ page part R w (s.lookedUp name f) m (s'.lookedUp name f) m' :=
  { h with
    functions := Session.functions_lookedUp hf h.functions
    functions' := Session.functions_lookedUp hf h.functions' }

theorem template_eq (h : Abreast e m₀ page part R w s m s' m')
    (hjoins : w.Joins view view' template template') :
    (s.views[view]?).map (·.template) = some template ∧
      (s'.views[view']?).map (·.template) = some template' := by
  obtain ⟨l, parent, hl, rfl, rfl, hshape⟩ := hjoins
  rw [← h.shapes, List.getElem?_map, Option.map_eq_some_iff] at hshape
  obtain ⟨v, hv, heq⟩ := hshape
  rw [h.views, Joint.expand_getElem? hl, hv]
  exact ⟨rfl, congrArg some (congrArg Prod.fst heq)⟩

theorem path_eq (h : Abreast e m₀ page part R w s m s' m')
    (hjoins : w.Joins view view' template template') :
    s.views.path view = template.path ∧ s'.views.path view' = template'.path := by
  have hpath {views : Views} {i : Nat} {template : Template}
      (h : (views[i]?).map (·.template) = some template) : views.path i = template.path := by
    obtain ⟨v, hv, rfl⟩ := Option.map_eq_some_iff.1 h
    rw [Views.path, hv]
  obtain ⟨hfirst, hsecond⟩ := h.template_eq hjoins
  exact ⟨hpath hfirst, hpath hsecond⟩

theorem defineMacro (h : Abreast e m₀ page part R w s m s' m')
    (hjoins : w.Joins view view' template template') (name : String) {t t' : Tag}
    (hcounterpart : Counterpart part template template' t t')
    (hwritten : Written part template template' t t') :
    Abreast e m₀ page part R w (s.defineMacro name ⟨view, t.id⟩) m
      (s'.defineMacro name ⟨view', t'.id⟩) m' :=
  { h with
    macros := fun other => by
      unfold Session.defineMacro
      by_cases hother : other = name
      · subst hother
        rw [Table.get?_put_self, Table.get?_put_self]
        exact .some hjoins hcounterpart hwritten
      · rw [Table.get?_put_of_ne hother, Table.get?_put_of_ne hother]
        exact h.macros other }

theorem attach (h : Abreast e m₀ page part R w s m s' m') {l : Link} (hl : w.links[view]? = some l)
    (hattaches : l.attaches) (name : Option String) (d : Dictionary) :
    Abreast e m₀ page part R w { s with views := s.views.attach name d view } m
      { s' with views := s'.views.attach name d l.target } m' :=
  { h with
    views := by rw [h.sound.expand_attach h.shapes name d hl hattaches, h.views]
    shapes := (Views.map_shape_attach name d l.target s'.views).trans h.shapes }

theorem length_views (h : Abreast e m₀ page part R w s m s' m') :
    s.views.length = w.links.length ∧ s'.views.length = w.shapes.length := by
  rw [h.views, ← h.shapes, Joint.expand, List.length_map, List.length_map]
  exact ⟨rfl, rfl⟩

/-- A further view in both renders. -/
theorem addLinked (h : Abreast e m₀ page part R w s m s' m') (template template' : Template)
    (parent : Option (Nat × Nat)) (attaches : Bool)
    (hparent : ∀ p ∈ parent, ∃ outer, w.links[p.1]? = some outer ∧ outer.target = p.2 ∧
      (attaches → outer.attaches))
    (hcovered : e.Covers m₀ page page.root template template.root)
    (hquiet : attaches = false → IsQuiet e m₀ template) :
    Abreast e m₀ page part R (w.addLinked template template' parent attaches)
        (s.addView template (parent.map (·.1))) m (s'.addView template' (parent.map (·.2))) m' ∧
      (w.addLinked template template' parent attaches).Joins s.views.length s'.views.length
        template template' := by
  obtain ⟨hlength, hlength'⟩ := h.length_views
  constructor
  · exact
      { core := h.core
        views := by
          simp only [Session.addView]
          rw [h.sound.expand_addLinked h.shapes, h.views]
        shapes := by
          simp only [Session.addView, List.map_append, h.shapes]
          rfl
        sound := h.sound.addLinked template template' hparent
        covered := fun l hl => by
          rcases List.mem_append.1 hl with hl | hl
          · exact h.covered l hl
          · cases List.mem_singleton.1 hl
            exact hcovered
        quiet := fun l hl hattaches => by
          rcases List.mem_append.1 hl with hl | hl
          · exact h.quiet l hl hattaches
          · cases List.mem_singleton.1 hl
            exact hquiet hattaches
        functions := h.functions
        functions' := h.functions'
        macros := fun name => (h.macros name).mono (Joint.within_addLinked ..)
        warnings := h.warnings
        parsed := h.parsed
        related := h.related }
  · refine ⟨⟨template, parent.map (·.1), w.shapes.length, false, attaches⟩, parent.map (·.2), ?_,
      rfl, hlength'.symm, ?_⟩
    · rw [hlength]
      exact List.getElem?_concat_length ..
    · rw [hlength']
      exact List.getElem?_concat_length ..

/-- A view of the part in the first render alone. -/
theorem addInlined (h : Abreast e m₀ page part R w s m s' m')
    (hjoins : w.Joins view view' template template')
    (hcovered : e.Covers m₀ page page.root part part.root) (hquiet : IsQuiet e m₀ part) :
    ∃ w', w.Within w' ∧ Abreast e m₀ page part R w' (s.addView part (some view)) m s' m' ∧
      w'.Joins s.views.length view' part template' := by
  obtain ⟨l, parent, hl, -, rfl, hshape⟩ := hjoins
  refine ⟨w.addInlined part view l.target, Joint.within_addInlined .., ?_, ?_⟩
  · exact
      { core := h.core
        views := by
          simp only [Session.addView]
          rw [Joint.expand_addInlined, h.views]
        shapes := h.shapes
        sound := h.sound.addInlined part hl
        covered := fun k hk => by
          rcases List.mem_append.1 hk with hk | hk
          · exact h.covered k hk
          · cases List.mem_singleton.1 hk
            exact hcovered
        quiet := fun k hk hattaches => by
          rcases List.mem_append.1 hk with hk | hk
          · exact h.quiet k hk hattaches
          · cases List.mem_singleton.1 hk
            exact hquiet
        functions := h.functions
        functions' := h.functions'
        macros := fun name => (h.macros name).mono (Joint.within_addInlined ..)
        warnings := h.warnings
        parsed := h.parsed
        related := h.related }
  · refine ⟨⟨part, some view, l.target, true, false⟩, parent, ?_, rfl, rfl, hshape⟩
    rw [h.length_views.1]
    exact List.getElem?_concat_length ..

/-- What is covered from a template of the first render is covered from the page. -/
theorem covers (h : Abreast e m₀ page part R w s m s' m')
    (hjoins : w.Joins view view' template template') {other : Template} {u : Tag}
    (hcovers : e.Covers m₀ template template.root other u) :
    e.Covers m₀ page page.root other u := by
  obtain ⟨l, -, hl, rfl, -, -⟩ := hjoins
  exact (h.covered l (List.mem_of_getElem? hl)).trans hcovers

theorem offers (h : Abreast e m₀ page part R w s m s' m')
    (hjoins : w.Joins view view' template template') {u : Tag} (hu : u ∈ template.root.tags)
    {kind : TagKind} (hkind : u.kind = kind) : e.Offers m₀ page template kind :=
  ⟨u, h.covers hjoins (.of_mem_tags hu (.self _ u)), hkind⟩

/-- Loading a path gives the same template in both renders, or fails in both. -/
theorem load (h : Abreast e m₀ page part R w s m s' m')
    (hoverlooks : e.Overlooks m₀ page part.path R) {other : Template} {file : String}
    (hoffers : e.Offers m₀ page other (.inclusion file)) {path : String}
    (hpath : Path.resolve other.path file = path) :
    (∃ f n n', e.load path m = (.error f, n) ∧ e.load path m' = (.error f, n')) ∨
      ∃ compiled compiled' n n', e.load path m = (.ok compiled, n) ∧
        e.load path m' = (.ok compiled', n') ∧ compiled'.template = compiled.template ∧
        compiled.template.IsNumbered ∧ e.Gives m₀ path compiled.template ∧
        Abreast e m₀ page part R w s n s' n' := by
  obtain ⟨hfirst, hsecond⟩ := hoverlooks.answer h.related hoffers
  rw [hpath] at hfirst hsecond
  have hnext := h.remember (by rw [Engine.parsed_load, Engine.parsed_load, h.parsed])
    (hoverlooks.load h.related path)
  have hsame := hfirst.trans hsecond.symm
  rcases hr : e.load path m with ⟨f | compiled, n⟩ <;>
    rcases hr' : e.load path m' with ⟨f' | compiled', n'⟩ <;>
    rw [hr, hr'] at hsame hnext
  · cases hsame
    exact .inl ⟨f, n, n', rfl, rfl⟩
  · cases hsame
  · cases hsame
  · rw [hr] at hfirst
    have htemplate : compiled.template = compiled'.template := Except.ok.inj hsame
    refine .inr ⟨compiled, compiled', n, n', rfl, rfl, htemplate.symm, ?_,
      .of_load (hoverlooks.asked h.related) (by rw [hr]), hnext⟩
    cases hstart : (e.load path m₀).1 with
    | error f =>
      rw [hstart] at hfirst
      cases hfirst
    | ok start =>
      obtain ⟨_, _, _, hcompile⟩ := hoverlooks.compiled hoffers (hpath ▸ hstart)
      rw [hstart] at hfirst
      rw [show compiled.template = start.template from Except.ok.inj hfirst]
      exact Template.isNumbered_of_compile hcompile

end Abreast

-- ---------------------------------------------------------------------------
-- Steps
-- ---------------------------------------------------------------------------

theorem joins_lasts :
    (abreast e m₀ page part R first second).Lasts (Joint.Joins view view' template template') :=
  fun hle hjoins => hjoins.mono hle

theorem joins_pairs : Pairs Render
    ((abreast e m₀ page part R first second).Holds (Joint.Joins view view' template template')) :=
  Simulation.Holds.pairs joins_lasts

/-- A change of the cores that does not depend on anything else. -/
theorem abreast_modify {A : Joint → Prop} {f : Session → Session}
    (hcore : ∀ s, (f s).core = f s.core) (hrest : ∀ s, (f s).rest = s.rest) :
    (abreast e m₀ page part R first second).Holds A (modify f) (modify f) := by
  refine Simulation.holds_modify_self fun (w : Joint) s m s' m' h => ?_
  refine Abreast.of_rest h ?_ (hrest s) (hrest s')
  rw [hcore, hcore, h.core]

section

variable (hfunctions : ∀ factory ∈ e.functions, ∀ name f, factory name = some f →
  Function.IgnoresPlace f)

include hfunctions

/-- Expressions end alike, wherever they are. -/
theorem abreast_atPlaces {A : Joint → Prop} (p p' : Place) :
    (abreast e m₀ page part R first second).AtPlaces e A p p' := by
  refine Simulation.atPlaces_of_ignoresPlace hfunctions id ?_ ?_ ?_ ?_ p p'
  · intro (w : Joint) s m s' m' h
    have hseen : (s'.iteration, s'.language, s'.calls) = (s.iteration, s.language, s.calls) :=
      h.see (f := fun s => (s.iteration, s.language, s.calls)) fun _ => rfl
    simpa using hseen
  · exact fun (w : Joint) _ _ _ _ h name f => ⟨h.functions name f, h.functions' name f⟩
  · exact fun (w : Joint) _ _ _ _ h _ _ hf => h.lookedUp hf
  · exact fun (w : Joint) _ _ _ _ h => Abreast.of_rest h
      (h.see (f := fun s => { s.core with calls := s.calls + 1 }) fun _ => rfl) rfl rfl

section

variable (hoverlooks : e.Overlooks m₀ page part.path R)
  (hfolder : Path.InSameFolder template.path template'.path)

include hfolder

omit hfunctions in
/-- A file is shown alike if it is read alike. -/
theorem abreast_verbatim {source : Source} (t t' : Tag) {file : String}
    (hread : ∀ {w s m s' m'}, Abreast e m₀ page part R w s m s' m' →
      w.Joins view view' template template' →
        source.read m'.files (Path.resolve template.path file) =
          source.read m.files (Path.resolve template.path file)) :
    (abreast e m₀ page part R first second).Holds (Joint.Joins view view' template template')
      (verbatim { e with source := source } view t file)
      (verbatim { e with source := source } view' t' file) := by
  refine Simulation.holds_get_bind fun (w : Joint) s m s' m' h hjoins => ?_
  obtain ⟨hpath, hpath'⟩ := h.path_eq hjoins
  rw [hpath, hpath', ← hfolder file]
  refine joins_pairs.bind (Simulation.AtPlaces.consult fun (w : Joint) s m s' m' h hjoins => ?_)
    (fun revision : Revision => joins_pairs.pure revision.text) h hjoins
  simp only [hread h hjoins]
  cases source.read m.files (Path.resolve template.path file) with
  | ok revision => exact .inl ⟨revision, rfl, rfl, h⟩
  | error f => exact .inr ⟨f, f, rfl, rfl, f.like_locate _ _⟩

include hoverlooks

/-- All steps on tags of joined views are alike that neither include templates nor show files, nor
attach dictionaries or call macros. -/
theorem abreast_along : Along { e with source := .memory .empty } view view' (fun _ _ => True)
    ((abreast e m₀ page part R first second).Holds
      (Joint.Joins view view' template template')) where
  toPairs := joins_pairs
  evaluate _ expr hexpr :=
    (abreast_atPlaces hfunctions _ _).evaluate joins_lasts
      (fun (w : Joint) _ _ _ _ h _ key _ => h.see fun _ => rfl) hexpr
  evaluateAttribute _ raw hraw := by
    refine (joins_pairs).bind ((abreast_atPlaces hfunctions _ _).parse
      (fun (w : Joint) _ _ _ _ h => h.parsed) (fun (w : Joint) _ _ _ _ h exprs => ?_) _)
      fun expr => ?_
    · exact h.remember rfl (hoverlooks.parsed h.related exprs)
    · exact (abreast_atPlaces hfunctions _ _).evaluate joins_lasts
        (fun (w : Joint) _ _ _ _ h _ key _ => h.see fun _ => rfl) (startsWithin_true expr)
  failAt _ f hf := (abreast_atPlaces hfunctions _ _).failAt hf
  warnAt _ f hf := Simulation.holds_modify_self fun (w : Joint) s m s' m' h => h.warn (hf _ _)
  language hfg := Simulation.holds_see
    (fun (w : Joint) _ _ _ _ h _ => h.see fun _ => rfl) hfg
  translate hfg := by
    refine Simulation.holds_see (fun (w : Joint) s m s' m' h hjoins => ?_) hfg
    obtain ⟨l, parent, hl, -, rfl, -⟩ := hjoins
    rw [h.views]
    exact (h.sound.translate_eq h.shapes hl _ _).symm
  findFeed _ feedClass parameters := by
    refine (abreast_atPlaces hfunctions _ _).findFeed
      (fun (w : Joint) _ _ _ _ h => h.see fun _ => rfl)
      (fun (w : Joint) s m s' m' h classes => Abreast.of_rest h ?_ rfl rfl) _ _
    exact h.see (f := fun s => { s.core with feedClasses := classes }) fun _ => rfl
  verbatim {t t'} _ file := abreast_verbatim hfolder t t' fun _ _ => rfl
  mount target v := by
    refine abreast_modify (fun s => ?_) fun s => ?_
    all_goals
      unfold Session.mount
      rcases s with ⟨_, root, _⟩
      cases root <;> rfl
  recordSlot _ := abreast_modify (fun _ => rfl) fun _ => rfl
  plug _ _ _ := abreast_modify (fun _ => rfl) fun _ => rfl
  startWalk _ := abreast_modify (fun _ => rfl) fun _ => rfl
  outside := abreast_modify (fun _ => rfl) fun _ => rfl
  enterItem _ := abreast_modify (fun _ => rfl) fun _ => rfl
  leaveFrame := abreast_modify (fun _ => rfl) fun _ => rfl

/-- A dictionary is attached from outside of the part only. -/
theorem abreast_dictionary {t t' : Tag} (hmem : t ∈ template.root.tags) {file : String}
    {name source : Option String} (hkind : t.kind = .dictionary file name source) :
    (abreast e m₀ page part R first second).Holds (Joint.Joins view view' template template')
      (dictionary e view t file name source) (dictionary e view' t' file name source) := by
  refine (abreast_along hfunctions hoverlooks hfolder).attaching t t' file name source
    (fun language => ?_) (fun f => ?_) fun d => ?_
  · refine Simulation.AtPlaces.consult fun (w : Joint) s m s' m' h hjoins => ?_
    obtain ⟨hsame, hrelated⟩ :=
      hoverlooks.dictionary h.related (h.offers hjoins hmem hkind) language
    cases hd : (e.loadDictionary language file m).1 with
    | ok d => exact .inl ⟨d, hd, hsame.trans hd, h.remember h.parsed hrelated⟩
    | error f => exact .inr ⟨f, f, hd, hsame.trans hd, f.like_locate _ _⟩
  · exact Simulation.holds_modify_self fun (w : Joint) s m s' m' h => h.warn (.refl f)
  · refine Simulation.holds_modify fun (w : Joint) s m s' m' h hjoins => ?_
    obtain ⟨l, parent, hl, rfl, rfl, -⟩ := hjoins
    refine ⟨w, .refl w, h.attach hl ?_ name d⟩
    by_contra hattaches
    exact h.quiet l (List.mem_of_getElem? hl) (Bool.eq_false_iff.2 hattaches) l.template t
      (.of_mem_tags hmem (.self _ t)) file name source hkind

end

end

section

variable (hoverlooks : e.Overlooks m₀ page part.path R)

include hoverlooks

/-- The same template is included in both renders. -/
theorem abreast_inclusion {inner inner' : Renderer} {t t' : Tag}
    (hfolder : Path.InSameFolder template.path template'.path) (hmem : t ∈ template.root.tags)
    {file : String} (hkind : t.kind = .inclusion file)
    (hinner : ∀ {view view' : Nat} {other : Template}, other.IsNumbered →
      (abreast e m₀ page part R first second).Holds (Joint.Joins view view' other other)
        (inner.output other.root view .none) (inner'.output other.root view' .none)) :
    (abreast e m₀ page part R first second).Holds (Joint.Joins view view' template template')
      (inclusion e inner view t file) (inclusion e inner' view' t' file) := by
  intro (w : Joint) s m s' m' h hjoins
  obtain ⟨hpath, hpath'⟩ := h.path_eq hjoins
  rw [inclusion_apply, inclusion_apply, hpath, hpath', ← hfolder file]
  rcases h.load hoverlooks (h.offers hjoins hmem hkind) rfl with ⟨f, n, n', hload, hload'⟩ |
    ⟨compiled, compiled', n, n', hload, hload', hsame, hnumbered, hgives, hnext⟩
  · rw [hload, hload']
    exact .stop (f.like_locate _ _)
  · rw [hload, hload']
    simp only [hsame]
    have hincluded {other : Template} {u : Tag}
        (hcovers : e.Covers m₀ compiled.template compiled.template.root other u) :
        e.Covers m₀ template template.root other u :=
      .of_mem_tags hmem (.inclusion hkind hgives hcovers)
    have hcovered := h.covers hjoins (hincluded (.self _ _))
    obtain ⟨l, parent, hl, rfl, rfl, -⟩ := hjoins
    have hquiet (hattaches : l.attaches = false) : IsQuiet e m₀ compiled.template :=
      fun other u hcovers => h.quiet l (List.mem_of_getElem? hl) hattaches other u
        (hincluded hcovers)
    obtain ⟨hadded, hjoined⟩ := hnext.addLinked compiled.template compiled.template
      (some (view, l.target)) l.attaches (fun p hp => by
        cases hp
        exact ⟨l, hl, rfl, id⟩) hcovered hquiet
    exact .mono (Joint.within_addLinked ..) (hinner hnumbered hadded hjoined)

/-- The part is included in the first render, and in its place in the second one. -/
theorem abreast_replaced {inner : Renderer} {t : Tag} {y : Render String} {file : String}
    (hload : (e.load part.path m₀).1.map Compiled.template = .ok part)
    (hquiet : IsQuiet e m₀ part) (hmem : t ∈ template.root.tags) (hkind : t.kind = .inclusion file)
    (hpath : Path.resolve template.path file = part.path)
    (hinner : ∀ view, (abreast e m₀ page part R first second).Holds
      (Joint.Joins view view' part template') (inner.output part.root view .none) y) :
    (abreast e m₀ page part R first second).Holds (Joint.Joins view view' template template')
      (inclusion e inner view t file) y := by
  intro (w : Joint) s m s' m' h hjoins
  rw [inclusion_apply, (h.path_eq hjoins).1, hpath]
  have hoffers := h.offers hjoins hmem hkind
  have hgiven := (hoverlooks.answer h.related hoffers).1
  rw [hpath] at hgiven
  have hrelated := hoverlooks.more h.related
  have hparsed := e.parsed_load part.path m
  have hgives : ∀ compiled, (e.load part.path m).1 = .ok compiled →
      e.Gives m₀ part.path compiled.template :=
    fun compiled hload => .of_load (hoverlooks.asked h.related) hload
  have hgiven := hgiven.trans hload
  generalize e.load part.path m = r at hgiven hrelated hparsed hgives
  obtain ⟨f | compiled, n⟩ := r
  · cases hgiven
  · obtain rfl : compiled.template = part := Except.ok.inj hgiven
    have hnext : Abreast e m₀ page compiled.template R w s n s' m' :=
      h.remember (h.parsed.trans hparsed.symm) hrelated
    have hcovered := h.covers hjoins (.of_mem_tags hmem
      (.inclusion hkind (hpath ▸ hgives compiled rfl) (.self _ _)))
    obtain ⟨w', hle, hadded, hjoined⟩ := hnext.addInlined hjoins hcovered hquiet
    exact .mono hle (hinner _ hadded hjoined)

end

/-- Bodies of macros in the same place. -/
theorem abreast_invoke {inner inner' : Renderer} {A : Joint → Prop} (t t' : Tag) (name : String)
    (all : Table Value)
    (hinner : ∀ {view view' : Nat} {template template' : Template} {t t' : Tag},
      Counterpart part template template' t t' → Written part template template' t t' →
      (abreast e m₀ page part R first second).Holds (Joint.Joins view view' template template')
        (inner.output t view ⟨false, true⟩) (inner'.output t' view' ⟨false, true⟩)) :
    (abreast e m₀ page part R first second).Holds A (invoke inner view t name all)
      (invoke inner' view' t' name all) := by
  intro (w : Joint) s m s' m' h hA
  rw [invoke_apply, invoke_apply]
  have hbody := h.macros name
  generalize s.macros.get? name = body at hbody
  generalize s'.macros.get? name = body' at hbody
  cases hbody with
  | none => exact .ok (.refl w) (h.warn rfl)
  | @some bodyView bodyView' other other' u u' hjoins hcounterpart hwritten =>
    have hfound {views : Views} {i : Nat} {template : Template} {u : Tag}
        (h : (views[i]?).map (·.template) = some template) (hnumbered : template.IsNumbered)
        (hmem : u ∈ template.root.tags) :
        (views[i]?).bind (fun v => v.template.find? u.id) = some u := by
      obtain ⟨v, hv, rfl⟩ := Option.map_eq_some_iff.1 h
      rw [hv]
      exact hnumbered.find?_eq hmem
    obtain ⟨htemplate, htemplate'⟩ := h.template_eq hjoins
    simp only [hfound htemplate hcounterpart.numbered hcounterpart.mem,
      hfound htemplate' hcounterpart.numbered' hcounterpart.mem']
    have hentered : Abreast e m₀ page part R w (s.enterMacro all) m (s'.enterMacro all) m' :=
      h.of_rest (h.see (f := fun s => (s.enterMacro all).core) fun _ => rfl) rfl rfl
    have hleave : Session.leaveMacro s' = Session.leaveMacro s := by
      unfold Session.leaveMacro
      rw [h.see (f := Session.iterations) fun _ => rfl]
    rw [hleave]
    refine joins_pairs.bind (hinner hcounterpart hwritten) (fun text => ?_) hentered hjoins
    exact joins_pairs.bind (abreast_modify (fun _ => rfl) fun _ => rfl) fun _ =>
      joins_pairs.pure text

end Render

end XmlTemplate
