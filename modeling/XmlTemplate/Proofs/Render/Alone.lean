import XmlTemplate.Proofs.Render.Simulation
import XmlTemplate.Proofs.Template.Tree

/-!
# A render beside itself

A simulation may set a render beside itself, to say that its states keep an invariant. The steps of
tags that change neither views, macros nor functions then keep it, and so do expressions, questions
to the engine and dictionaries; what is left are inclusions and macros.
-/

namespace XmlTemplate

namespace Tag

/-- A tag in the content of another one, beside itself. -/
def IsInside (t c c' : Tag) : Prop := c' = c ∧ c ∈ contentTags t.children

theorem alike_isInside (t : Tag) : t.Alike Eq t.IsInside t :=
  .self t rfl fun c hc => ⟨rfl, mem_contentTags_iff.2 ⟨c, hc, c.mem_tags_self⟩⟩

theorem IsInside.alike {t c c' : Tag} (h : t.IsInside c c') : c.Alike Eq t.IsInside c' := by
  obtain ⟨rfl, hc⟩ := h
  exact .self _ rfl fun other hother => ⟨rfl, mem_contentTags_trans hc (mem_tags_of_child hother)⟩

end Tag

namespace Simulation

/-- The two states are one state with an invariant, and all reasons to stop correspond to
themselves, or at least those of functions and faults. -/
structure IsAlone (sim : Simulation) (e : Engine) (Inv : sim.World → Session → Memory → Prop) :
    Prop where
  rel {w : sim.World} {s s' : Session} {m m' : Memory} :
    sim.Rel w s m s' m' ↔ s' = s ∧ m' = m ∧ Inv w s m
  fault (f : Fault) : sim.Stops (.fault f) (.fault f)
  called {name : String} {f : Function} (hf : e.function? name = some f) {anchor : Anchor}
    {args : List Value} {stop : Stop} (h : f anchor args = .error stop) : sim.Stops stop stop
  functions {w : sim.World} {s : Session} {m : Memory} (h : Inv w s m) :
    ∀ name f, s.functions.get? name = some f → e.function? name = some f
  lookedUp {w : sim.World} {s : Session} {m : Memory} (h : Inv w s m) {name : String}
    {f : Function} (hf : e.function? name = some f) : Inv w (s.lookedUp name f) m
  same {w : sim.World} {s s' : Session} {m : Memory} (h : Inv w s m) (hviews : s'.views = s.views)
    (hfunctions : s'.functions = s.functions) (hmacros : s'.macros = s.macros) : Inv w s' m
  parsed {w : sim.World} {s : Session} {m : Memory} (h : Inv w s m) (exprs : Table Expr) :
    Inv w s { m with parsed := exprs }
  loadDictionary {w : sim.World} {s : Session} {m : Memory} (h : Inv w s m)
    (language file : String) : Inv w s (e.loadDictionary language file m).2

namespace IsAlone

open Render (Along)

variable {sim : Simulation} {e : Engine} {Inv : sim.World → Session → Memory → Prop}
  {A : sim.World → Prop} (h : sim.IsAlone e Inv)

include h

theorem refl {w : sim.World} {s : Session} {m : Memory} (hinv : Inv w s m) : sim.Rel w s m s m :=
  h.rel.2 ⟨rfl, rfl, hinv⟩

theorem holds_modify {f : Session → Session}
    (hf : ∀ {w s m}, Inv w s m → A w → Inv w (f s) m) : sim.Holds A (modify f) (modify f) := by
  refine Simulation.holds_modify fun w s m s' m' hrel hA => ?_
  obtain ⟨rfl, rfl, hinv⟩ := h.rel.1 hrel
  exact ⟨w, sim.refl w, h.refl (hf hinv hA)⟩

/-- A change of the session that its views, macros and functions do not show. -/
theorem holds_modify_same {f : Session → Session} (hviews : ∀ s, (f s).views = s.views)
    (hfunctions : ∀ s, (f s).functions = s.functions) (hmacros : ∀ s, (f s).macros = s.macros) :
    sim.Holds A (modify f) (modify f) :=
  h.holds_modify fun hinv _ => h.same hinv (hviews _) (hfunctions _) (hmacros _)

theorem holds_get_bind {α : Type} {f g : Session → Render α}
    (hfg : ∀ {w s m}, Inv w s m → A w → sim.Ends w (f s s m) (g s s m)) :
    sim.Holds A (get >>= f) (get >>= g) := by
  refine Simulation.holds_get_bind fun w s m s' m' hrel hA => ?_
  obtain ⟨rfl, rfl, hinv⟩ := h.rel.1 hrel
  exact hfg hinv hA

theorem holds_consult {α : Type} (place : Place) {use : Memory → Except Fault α × Memory}
    (huse : ∀ {w s m}, Inv w s m → Inv w s (use m).2) :
    sim.Holds A (Render.consult place use) (Render.consult place use) := by
  refine AtPlaces.consult fun w s m s' m' hrel _ => ?_
  obtain ⟨rfl, rfl, hinv⟩ := h.rel.1 hrel
  cases hresult : (use m').1 with
  | ok a => exact .inl ⟨a, rfl, rfl, h.refl (huse hinv)⟩
  | error f => exact .inr ⟨f, f, rfl, rfl, h.fault _⟩

theorem atPlaces (place : Place) : sim.AtPlaces e A place place where
  stops _ _ _ _ _ _ hrel _ := by
    obtain ⟨rfl, -, -⟩ := h.rel.1 hrel
    exact h.fault _
  looksUp name _ _ _ _ _ hrel _ := by
    obtain ⟨rfl, rfl, hinv⟩ := h.rel.1 hrel
    exact looksUp_of_lookedUp (h.functions hinv name) (h.functions hinv name)
      fun f hf => h.refl (h.lookedUp hinv hf)
  called {name f} hf args _ _ _ s _ hrel _ := by
    obtain ⟨rfl, -, -⟩ := h.rel.1 hrel
    cases hresult : f (Render.anchor e place s) args with
    | ok v => exact .inl ⟨v, rfl, rfl⟩
    | error stop => exact .inr ⟨stop, stop, rfl, rfl, h.called hf hresult⟩
  call _ _ _ _ _ hrel := by
    obtain ⟨rfl, rfl, hinv⟩ := h.rel.1 hrel
    exact h.refl (h.same hinv rfl rfl rfl)

section

variable (hlasts : sim.Lasts A)

include hlasts

theorem verbatim (view : Nat) (t : Tag) (file : String) :
    sim.Holds A (Render.verbatim e view t file) (Render.verbatim e view t file) := by
  have hpairs := Holds.pairs hlasts
  exact h.holds_get_bind fun hinv hA =>
    hpairs.bind (h.holds_consult _ id) (fun _ => hpairs.pure _) (h.refl hinv) hA

/-- All steps of a tag besides inclusions, dictionaries and macros keep the invariant. -/
theorem along (view : Nat) : Along e view view Eq (sim.Holds A) where
  toPairs := Holds.pairs hlasts
  evaluate {line _} hline expr hexpr := by
    subst hline
    refine (h.atPlaces _).evaluate hlasts (fun _ _ _ _ _ hrel _ _ _ => ?_) hexpr
    rw [(h.rel.1 hrel).1]
  evaluateAttribute {line _} hline raw hraw := by
    subst hline
    refine (Holds.pairs hlasts).bind ((h.atPlaces _).parse (fun _ _ _ _ _ hrel => ?_)
      (fun _ _ _ _ _ hrel exprs => ?_) _) fun expr => ?_
    · rw [(h.rel.1 hrel).2.1]
    · obtain ⟨rfl, rfl, hinv⟩ := h.rel.1 hrel
      exact h.refl (h.parsed hinv exprs)
    · refine (h.atPlaces _).evaluate hlasts (fun _ _ _ _ _ hrel _ _ _ => ?_)
        (Render.startsWithin_true expr)
      rw [(h.rel.1 hrel).1]
  failAt hline f hf := by
    subst hline
    exact (h.atPlaces _).failAt hf
  warnAt hline _ _ :=
    hline ▸ h.holds_modify_same (fun _ => rfl) (fun _ => rfl) fun _ => rfl
  language hfg := holds_see (fun _ _ _ _ _ hrel _ => by rw [(h.rel.1 hrel).1]) hfg
  translate hfg := holds_see (fun _ _ _ _ _ hrel _ => by rw [(h.rel.1 hrel).1]) hfg
  findFeed hline feedClass parameters := by
    subst hline
    refine (h.atPlaces _).findFeed (fun _ _ _ _ _ hrel => by rw [(h.rel.1 hrel).1])
      (fun _ _ _ _ _ hrel classes => ?_) _ _
    obtain ⟨rfl, rfl, hinv⟩ := h.rel.1 hrel
    exact h.refl (h.same hinv rfl rfl rfl)
  verbatim {t t'} hline file := by
    rw [Render.verbatim_of_line hline]
    exact h.verbatim hlasts view t file
  mount target v := by
    have hmount (s : Session) : (s.mount target v).views = s.views ∧
        (s.mount target v).functions = s.functions ∧ (s.mount target v).macros = s.macros := by
      unfold Session.mount
      split <;> exact ⟨rfl, rfl, rfl⟩
    exact h.holds_modify_same (fun s => (hmount s).1) (fun s => (hmount s).2.1)
      fun s => (hmount s).2.2
  recordSlot _ := h.holds_modify_same (fun _ => rfl) (fun _ => rfl) fun _ => rfl
  plug _ _ _ := h.holds_modify_same (fun _ => rfl) (fun _ => rfl) fun _ => rfl
  startWalk _ := h.holds_modify_same (fun _ => rfl) (fun _ => rfl) fun _ => rfl
  outside := h.holds_modify_same (fun _ => rfl) (fun _ => rfl) fun _ => rfl
  enterItem _ := h.holds_modify_same (fun _ => rfl) (fun _ => rfl) fun _ => rfl
  leaveFrame := h.holds_modify_same (fun _ => rfl) (fun _ => rfl) fun _ => rfl

/-- A dictionary keeps the invariant if attaching does. -/
theorem dictionary (view : Nat) (t : Tag) (file : String) (name source : Option String)
    (hattach : ∀ d {w s m}, Inv w s m → A w →
      Inv w { s with views := s.views.attach name d view } m) :
    sim.Holds A (Render.dictionary e view t file name source)
      (Render.dictionary e view t file name source) := by
  refine (h.along hlasts view).attaching t t file name source (fun language => ?_) (fun f => ?_)
    fun d => h.holds_modify (hattach d)
  · exact h.holds_consult _ fun hinv => h.loadDictionary hinv language file
  · exact h.holds_modify_same (fun _ => rfl) (fun _ => rfl) fun _ => rfl

end

end IsAlone

end Simulation

end XmlTemplate
