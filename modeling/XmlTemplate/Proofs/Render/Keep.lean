import XmlTemplate.Proofs.Render.Step

/-!
# Steps without tags

The steps of a render that render no tag: expressions at a place, texts of files, feeds and
dictionaries. They leave the frames, walks, macros, slots and plugs of the session as they are.
-/

namespace XmlTemplate

/-- What of a view stays as it is. Dictionaries may still be attached to it. -/
def View.shape (v : View) : Template × Option Nat := (v.template, v.parent)

theorem View.shape_add (name : Option String) (d : Dictionary) (v : View) :
    (v.add name d).shape = v.shape := rfl

theorem View.shape_replace (name : String) (d : Dictionary) (v : View) :
    (v.replace name d).shape = v.shape := rfl

/-- The one session follows from the other by steps that render no tag. -/
structure Session.Keeps (s s' : Session) : Prop where
  frames : s'.frames = s.frames
  iterations : s'.iterations = s.iterations
  macros : s'.macros = s.macros
  slots : s'.slots = s.slots
  plugs : s'.plugs = s.plugs
  warnings : s.warnings <+: s'.warnings
  views : s'.views.map View.shape = s.views.map View.shape

namespace Session

theorem Keeps.refl (s : Session) : s.Keeps s :=
  ⟨rfl, rfl, rfl, rfl, rfl, List.prefix_rfl, rfl⟩

theorem Keeps.trans {s t u : Session} (h : s.Keeps t) (k : t.Keeps u) : s.Keeps u where
  frames := k.frames.trans h.frames
  iterations := k.iterations.trans h.iterations
  macros := k.macros.trans h.macros
  slots := k.slots.trans h.slots
  plugs := k.plugs.trans h.plugs
  warnings := h.warnings.trans k.warnings
  views := k.views.trans h.views

theorem keeps_warn (f : Fault) (s : Session) : s.Keeps (s.warn f) :=
  { Keeps.refl s with warnings := List.prefix_append _ _ }

theorem keeps_mount (key : String) (v : Value) (s : Session) : s.Keeps (s.mount key v) := by
  unfold mount
  split <;> exact { Keeps.refl s with }

end Session

namespace Views

theorem map_shape_modify {f : View → View} (hf : ∀ v, (f v).shape = v.shape) (views : Views)
    (i : Nat) : (List.modify views i f).map View.shape = views.map View.shape := by
  apply List.ext_getElem?
  intro j
  simp only [List.getElem?_map, List.getElem?_modify]
  cases views[j]? with
  | none => rfl
  | some v => by_cases h : i = j <;> simp [h, hf]

theorem map_shape_of_attachTopmost? {name : String} {d : Dictionary} {views views' : Views}
    {i : Nat} (h : views.attachTopmost? name d i = some views') :
    views'.map View.shape = views.map View.shape := by
  have hhere {v : View} {i : Nat}
      (h : (if v.has name then none else some (List.modify views i (View.add (some name) d))) =
        some views') : views'.map View.shape = views.map View.shape := by
    split at h
    · cases h
    · cases h
      exact map_shape_modify (View.shape_add _ d) views i
  fun_induction attachTopmost? name d views i with
  | case1 => cases h
  | case2 i v hv here p hp ih =>
    rcases Option.or_eq_some_iff.1 h with h | ⟨-, h⟩
    · exact ih h
    · exact hhere h
  | case3 i v hv here hp => exact hhere h

/-- Attaching a dictionary keeps the views with their templates and parents. -/
theorem map_shape_attach (name : Option String) (d : Dictionary) (i : Nat) (views : Views) :
    (views.attach name d i).map View.shape = views.map View.shape := by
  cases name with
  | none => exact map_shape_modify (View.shape_add none d) views i
  | some name =>
    simp only [attach]
    cases h : views.attachTopmost? name d i with
    | none => exact map_shape_modify (View.shape_replace name d) views i
    | some views' => exact map_shape_of_attachTopmost? h

end Views

theorem Session.keeps_attach (name : Option String) (d : Dictionary) (view : Nat) (s : Session) :
    s.Keeps { s with views := s.views.attach name d view } :=
  { Keeps.refl s with views := s.views.map_shape_attach name d view }

namespace Render

/-! ## Steps that relate sessions -/

/-- Whenever the step ends that starts from a session, the session it leaves is related to it. -/
def StepsFrom (R : Session → Session → Prop) (s : Session) (x : Render α) : Prop :=
  ∀ ⦃m : Memory⦄ ⦃a : α⦄ ⦃s' : Session⦄ ⦃m' : Memory⦄, x s m = (.ok (a, s'), m') → R s s'

/-- Whenever the step ends, the session it leaves is related to the one it starts from. -/
def Steps (R : Session → Session → Prop) (x : Render α) : Prop := ∀ s, StepsFrom R s x

variable {R : Session → Session → Prop}

theorem steps_composes (hrefl : ∀ s, R s s) (htrans : ∀ {s t u}, R s t → R t u → R s u) :
    Composes Render (Steps R) where
  pure a s m b s' m' h := by
    obtain ⟨-, rfl, -⟩ := pure_eq_ok_iff.1 h
    exact hrefl s
  bind hx hf s m b s' m' h := by
    obtain ⟨a, t, n, h, k⟩ := bind_eq_ok_iff.1 h
    exact htrans (hx s h) (hf a t k)

theorem steps_modify {f : Session → Session} (h : ∀ s, R s (f s)) :
    Steps R (modify f : Render Unit) := by
  intro s m a s' m' hr
  cases hr
  exact h s

theorem steps_get_bind {f : Session → Render α} (h : ∀ s, StepsFrom R s (f s)) :
    Steps R (get >>= f) := by
  intro s m a s' m' hr
  obtain ⟨_, _, _, hg, hr⟩ := bind_eq_ok_iff.1 hr
  cases hg
  exact h s hr

theorem stepsFrom_set_bind (htrans : ∀ {s t u}, R s t → R t u → R s u) {s t : Session}
    {f : Unit → Render α} (h : R s t) (hf : Steps R (f ())) : StepsFrom R s (set t >>= f) := by
  intro m a s' m' hr
  obtain ⟨_, _, _, hs, hr⟩ := bind_eq_ok_iff.1 hr
  cases hs
  exact htrans h (hf t hr)

theorem steps_failAt (place : Place) (f : Location → Fault) :
    Steps R (failAt place f : Render α) :=
  steps_get_bind fun _ _ _ _ _ h => nomatch h

/-! ## Steps that keep the session -/

/-- Whenever the step ends, the session has been kept. -/
abbrev Keeping (x : Render α) : Prop := Steps Session.Keeps x

theorem keeping_composes : Composes Render Keeping :=
  steps_composes Session.Keeps.refl Session.Keeps.trans

theorem keeping_warnAt (place : Place) (f : Location → Fault) : Keeping (warnAt place f) :=
  steps_modify fun s => s.keeps_warn _

theorem keeping_consult (place : Place) (use : Memory → Except Fault α × Memory) :
    Keeping (consult place use) := by
  intro s m a s' m' h
  rw [consult_apply] at h
  split at h
  · cases h
    exact .refl s
  · cases h

theorem keeping_parse (place : Place) (source : String) : Keeping (parse place source) := by
  intro s m a s' m' h
  rw [parse_apply] at h
  split at h
  · cases h
    exact .refl s
  · split at h
    · cases h
      exact .refl s
    · cases h

variable (e : Engine)

theorem keeping_function (place : Place) (name : String) : Keeping (function e place name) := by
  intro s m f s' m' h
  rw [function_apply] at h
  split at h
  · cases h
    exact .refl s
  · split at h
    · cases h
      exact { Session.Keeps.refl s with }
    · cases h

theorem keeping_call (place : Place) (name : String) (args : List Value) :
    Keeping (call e place name args) := by
  intro s m v s' m' h
  rw [call_apply] at h
  split at h
  · rename_i f t n hf
    split at h
    · cases h
      exact (keeping_function e place name s hf).trans { Session.Keeps.refl t with }
    · cases h
  · cases h

theorem keeping_local : Local e Keeping where
  toComposes := keeping_composes
  environment place :=
    { lookup := fun key => steps_get_bind fun s => keeping_composes.pure (s.lookup key) s
      call := keeping_call e place
      noText := steps_failAt place .noText }
  parse := keeping_parse
  failAt := steps_failAt

/-! ## Kinds of tags -/

theorem keeping_verbatim (view : Nat) (t : Tag) (file : String) :
    Keeping (verbatim e view t file) :=
  steps_get_bind fun s => keeping_composes.bind (keeping_consult _ _)
    (fun _ => keeping_composes.pure _) s

theorem keeping_findFeed (place : Place) (feedClass : String) (parameters : Table Value) :
    Keeping (findFeed e place feedClass parameters) := by
  apply steps_get_bind
  intro s
  split
  · split
    · exact keeping_composes.pure _ s
    · exact steps_failAt _ _ s
  · split
    · exact stepsFrom_set_bind (R := Session.Keeps) Session.Keeps.trans
        { Session.Keeps.refl s with } (keeping_composes.pure _)
    · exact steps_failAt _ _ s

theorem keeping_feed (view : Nat) (t : Tag) (feedClass : String) (target : Option String) :
    Keeping (feed e view t feedClass target) := by
  refine keeping_composes.bind ((keeping_local e).arguments view t) fun parameters =>
    keeping_composes.bind (keeping_findFeed e _ _ _) fun feed => ?_
  split
  · exact steps_modify fun s => s.keeps_mount _ _
  · exact keeping_composes.pure _
  · exact steps_failAt _ _

theorem keeping_dictionary (view : Nat) (t : Tag) (file : String) (name source : Option String) :
    Keeping (dictionary e view t file name source) := by
  apply steps_get_bind
  intro s
  split
  · exact keeping_composes.pure _ s
  · split
    · exact keeping_composes.pure _ s
    · exact keeping_composes.bind (keeping_consult _ _) (fun d => keeping_composes.bind
        (keeping_composes.forM (fun key => steps_modify fun s => s.keeps_warn _) d.duplicates)
        fun _ => steps_modify fun s => s.keeps_attach name d view) s

end Render

end XmlTemplate
