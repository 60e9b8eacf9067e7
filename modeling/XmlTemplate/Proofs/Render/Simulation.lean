import XmlTemplate.Proofs.Function.BuiltIn
import XmlTemplate.Proofs.Render.Lockstep

/-!
# Simulations of renders

Two renders of one engine are compared by a relation of their sessions and memories. The relation
may depend on what was learned on the way, the world, of which more and more becomes known. Steps
simulate each other if they end alike from all related states: with the same result and in related
states again, or with stops that correspond. One of the renders may be allowed to run out of depth.
-/

namespace XmlTemplate

/-- The session after the function of a name was looked up. -/
def Session.lookedUp (name : String) (f : Function) (s : Session) : Session :=
  { s with functions := match s.functions.get? name with
      | some _ => s.functions
      | none => s.functions.put name f }

theorem Session.functions_lookedUp {e : Engine} {s : Session} {name : String} {f : Function}
    (hf : e.function? name = some f)
    (h : ∀ other g, s.functions.get? other = some g → e.function? other = some g) :
    ∀ other g, (s.lookedUp name f).functions.get? other = some g → e.function? other = some g := by
  unfold Session.lookedUp
  cases s.functions.get? name with
  | none => exact Table.forall_put hf h
  | some _ => exact h

/-- How the states of two renders correspond. -/
structure Simulation where
  World : Type
  /-- More is known. -/
  le : World → World → Prop
  refl (w : World) : le w w
  trans {u v w : World} : le u v → le v w → le u w
  Rel : World → Session → Memory → Session → Memory → Prop
  Stops : Stop → Stop → Prop
  /-- The first render may run out of depth. -/
  first : Prop
  /-- The second render may run out of depth. -/
  second : Prop

/-- The outcome of a step of a render. -/
abbrev Render.Outcome (α : Type) := Except Stop (α × Session) × Memory

namespace Simulation

/-- Two steps end alike. -/
inductive Ends (sim : Simulation) (w : sim.World) {α : Type} :
    Render.Outcome α → Render.Outcome α → Prop
  | ok {w' : sim.World} {a : α} {s s' : Session} {m m' : Memory} (hle : sim.le w w')
      (hrel : sim.Rel w' s m s' m') : Ends sim w (.ok (a, s), m) (.ok (a, s'), m')
  | stop {stop stop' : Stop} {m m' : Memory} (h : sim.Stops stop stop') :
      Ends sim w (.error stop, m) (.error stop', m')
  | first {m : Memory} {r : Render.Outcome α} (h : sim.first) : Ends sim w (.error .depth, m) r
  | second {r : Render.Outcome α} {m : Memory} (h : sim.second) : Ends sim w r (.error .depth, m)

/-- A condition on worlds that stays as more becomes known. -/
def Lasts (sim : Simulation) (A : sim.World → Prop) : Prop := ∀ {w w'}, sim.le w w' → A w → A w'

/-- The steps end alike from all related states of worlds with a condition. -/
def Holds (sim : Simulation) (A : sim.World → Prop) {α : Type} (x y : Render α) : Prop :=
  ∀ ⦃w s m s' m'⦄, sim.Rel w s m s' m' → A w → sim.Ends w (x s m) (y s' m')

variable {sim : Simulation} {A : sim.World → Prop}

theorem Ends.mono {α : Type} {w w' : sim.World} {r r' : Render.Outcome α} (hle : sim.le w w')
    (h : sim.Ends w' r r') : sim.Ends w r r' := by
  cases h with
  | ok hle' hrel => exact .ok (sim.trans hle hle') hrel
  | stop h => exact .stop h
  | first h => exact .first h
  | second h => exact .second h

/-- What follows two steps that end alike. -/
theorem Ends.bind {α β : Type} {w : sim.World} {x y : Render α} {f g : α → Render β}
    {s s' : Session} {m m' : Memory} (h : sim.Ends w (x s m) (y s' m'))
    (hfg : ∀ a w' s m s' m', sim.le w w' → sim.Rel w' s m s' m' →
      sim.Ends w' (f a s m) (g a s' m')) : sim.Ends w ((x >>= f) s m) ((y >>= g) s' m') := by
  rw [Render.bind_apply, Render.bind_apply]
  revert h
  generalize x s m = r
  generalize y s' m' = r'
  intro h
  cases h with
  | ok hle hrel => exact .mono hle (hfg _ _ _ _ _ _ hle hrel)
  | stop h => exact .stop h
  | first h => exact .first h
  | second h => exact .second h

theorem Holds.pairs (hlasts : sim.Lasts A) : Pairs Render (sim.Holds A) where
  pure _ w _ _ _ _ hrel _ := .ok (sim.refl w) hrel
  bind hx hf _ _ _ _ _ hrel hA :=
    (hx hrel hA).bind fun a _ _ _ _ _ hle hrel => hf a hrel (hlasts hle hA)

/-! ## Steps on the session -/

theorem holds_modify {f g : Session → Session}
    (h : ∀ ⦃w s m s' m'⦄, sim.Rel w s m s' m' → A w →
      ∃ w', sim.le w w' ∧ sim.Rel w' (f s) m (g s') m') :
    sim.Holds A (modify f) (modify g) := by
  intro w s m s' m' hrel hA
  obtain ⟨w', hle, hrel'⟩ := h hrel hA
  exact .ok hle hrel'

/-- A change of the session that keeps states related. -/
theorem holds_modify_self {f g : Session → Session}
    (h : ∀ ⦃w s m s' m'⦄, sim.Rel w s m s' m' → sim.Rel w (f s) m (g s') m') :
    sim.Holds A (modify f) (modify g) :=
  holds_modify fun w _ _ _ _ hrel _ => ⟨w, sim.refl w, h hrel⟩

theorem holds_get_bind {α : Type} {f g : Session → Render α}
    (h : ∀ ⦃w s m s' m'⦄, sim.Rel w s m s' m' → A w → sim.Ends w (f s s m) (g s' s' m')) :
    sim.Holds A (get >>= f) (get >>= g) := by
  intro w s m s' m' hrel hA
  rw [Render.bind_apply, Render.bind_apply]
  exact h hrel hA

/-- Two steps that see the same in related sessions. -/
theorem holds_see {α β : Type} {see see' : Session → β} {f g : β → Render α}
    (hsee : ∀ ⦃w s m s' m'⦄, sim.Rel w s m s' m' → A w → see' s' = see s)
    (hfg : ∀ b, sim.Holds A (f b) (g b)) :
    sim.Holds A (do f (see (← get))) (do g (see' (← get))) := by
  refine holds_get_bind fun _ _ _ _ _ hrel hA => ?_
  rw [hsee hrel hA]
  exact hfg _ hrel hA

/-! ## Steps at places -/

variable {e : Engine}

/-- A function is found in both renders, as the engine has it, or in none of them. -/
inductive LooksUp (sim : Simulation) (e : Engine) (p p' : Place) (name : String) (w : sim.World)
    (s : Session) (m : Memory) (s' : Session) (m' : Memory) : Prop
  | found (f : Function) (t t' : Session) (hf : e.function? name = some f)
      (hfirst : Render.function e p name s m = (.ok (f, t), m))
      (hsecond : Render.function e p' name s' m' = (.ok (f, t'), m'))
      (hrel : sim.Rel w t m t' m') (hanchor : Render.anchor e p t = Render.anchor e p s)
      (hanchor' : Render.anchor e p' t' = Render.anchor e p' s') :
      LooksUp sim e p p' name w s m s' m'
  | unknown (hfirst : Render.function e p name s m =
        (.error (.fault (.unknownFunction (s.location p.view p.line) name)), m))
      (hsecond : Render.function e p' name s' m' =
        (.error (.fault (.unknownFunction (s'.location p'.view p'.line) name)), m')) :
      LooksUp sim e p p' name w s m s' m'

/-- Two places at which faults and calls of functions end alike. -/
structure AtPlaces (sim : Simulation) (e : Engine) (A : sim.World → Prop) (p p' : Place) :
    Prop where
  stops {f : Location → Fault} (hf : Fault.IsUniform f) :
    ∀ ⦃w s m s' m'⦄, sim.Rel w s m s' m' → A w →
      sim.Stops (.fault (f (s.location p.view p.line))) (.fault (f (s'.location p'.view p'.line)))
  looksUp (name : String) : ∀ ⦃w s m s' m'⦄, sim.Rel w s m s' m' → A w →
    sim.LooksUp e p p' name w s m s' m'
  called {name : String} {f : Function} (hf : e.function? name = some f) (args : List Value) :
    ∀ ⦃w s m s' m'⦄, sim.Rel w s m s' m' → A w →
      (∃ v, f (Render.anchor e p s) args = .ok v ∧ f (Render.anchor e p' s') args = .ok v) ∨
        ∃ stop stop', f (Render.anchor e p s) args = .error stop ∧
          f (Render.anchor e p' s') args = .error stop' ∧ sim.Stops stop stop'
  call : ∀ ⦃w s m s' m'⦄, sim.Rel w s m s' m' →
    sim.Rel w { s with calls := s.calls + 1 } m { s' with calls := s'.calls + 1 } m'

namespace AtPlaces

variable {p p' : Place} (h : sim.AtPlaces e A p p')

include h

theorem failAt {α : Type} {f : Location → Fault} (hf : Fault.IsUniform f) :
    sim.Holds A (Render.failAt p f : Render α) (Render.failAt p' f) :=
  fun _ _ _ _ _ hrel hA => .stop (h.stops hf hrel hA)

theorem holds_call (name : String) (args : List Value) :
    sim.Holds A (Render.call e p name args) (Render.call e p' name args) := by
  intro w s m s' m' hrel hA
  rw [Render.call_apply, Render.call_apply]
  cases h.looksUp name hrel hA with
  | found f t t' hf hfirst hsecond hrel' hanchor hanchor' =>
    rw [hfirst, hsecond]
    simp only [hanchor, hanchor']
    rcases h.called hf args hrel hA with ⟨v, hv, hv'⟩ | ⟨stop, stop', hstop, hstop', hstops⟩
    · rw [hv, hv']
      exact .ok (sim.refl w) (h.call hrel')
    · rw [hstop, hstop']
      exact .stop hstops
  | unknown hfirst hsecond =>
    rw [hfirst, hsecond]
    have huniform : Fault.IsUniform fun location => .unknownFunction location name :=
      fun _ _ => rfl
    exact .stop (h.stops huniform hrel hA)

/-- Expressions that start where both sessions show the same. -/
theorem evaluate {K : String → Prop} (hlasts : sim.Lasts A)
    (hlookup : ∀ ⦃w s m s' m'⦄, sim.Rel w s m s' m' → A w → ∀ key, K key →
      s'.lookup key = s.lookup key) {expr : Expr} (hexpr : expr.StartsWithin K) :
    sim.Holds A (Render.evaluate e p expr) (Render.evaluate e p' expr) :=
  (Holds.pairs hlasts).evaluate
    { lookup := fun {key} hkey w s m s' m' hrel hA => by
        have hsame := hlookup hrel hA key hkey
        simp only [Render.environment, Render.bind_apply, Render.get_apply, Render.pure_apply,
          hsame]
        exact .ok (sim.refl w) hrel
      call := h.holds_call
      noText := by
        refine h.failAt ?_
        exact fun _ _ => rfl } expr hexpr

theorem findFeed (hclasses : ∀ ⦃w s m s' m'⦄, sim.Rel w s m s' m' → s'.feedClasses = s.feedClasses)
    (hset : ∀ ⦃w s m s' m'⦄, sim.Rel w s m s' m' → ∀ classes,
      sim.Rel w { s with feedClasses := classes } m { s' with feedClasses := classes } m')
    (feedClass : String) (parameters : Table Value) :
    sim.Holds A (Render.findFeed e p feedClass parameters)
      (Render.findFeed e p' feedClass parameters) := by
  have hunknown : Fault.IsUniform fun location => .unknownFeed location feedClass :=
    fun _ _ => rfl
  refine holds_get_bind fun w s m s' m' hrel hA => ?_
  rw [hclasses hrel]
  cases s.feedClasses.get? feedClass with
  | some i =>
    simp only
    cases (e.feeds[i]?).bind fun factory => factory feedClass parameters with
    | some feed => exact .ok (sim.refl w) hrel
    | none => exact h.failAt hunknown hrel hA
  | none =>
    simp only
    cases Render.firstFeed? feedClass parameters e.feeds with
    | some found => exact .ok (sim.refl w) (hset hrel _)
    | none => exact h.failAt hunknown hrel hA

theorem parse (hparsed : ∀ ⦃w s m s' m'⦄, sim.Rel w s m s' m' → m'.parsed = m.parsed)
    (hset : ∀ ⦃w s m s' m'⦄, sim.Rel w s m s' m' → ∀ exprs,
      sim.Rel w s { m with parsed := exprs } s' { m' with parsed := exprs }) (source : String) :
    sim.Holds A (Render.parse p source) (Render.parse p' source) := by
  intro w s m s' m' hrel hA
  rw [Render.parse_apply, Render.parse_apply, hparsed hrel]
  cases m.parsed.get? source with
  | some expr => exact .ok (sim.refl w) hrel
  | none =>
    simp only
    cases Expr.parse source with
    | ok expr => exact .ok (sim.refl w) (hset hrel _)
    | error problem =>
      have huniform : Fault.IsUniform fun location => .syntaxError location source problem :=
        fun _ _ => rfl
      exact .stop (h.stops huniform hrel hA)

omit h in
/-- The same answers to two questions, or none. -/
theorem consult {α : Type} {use use' : Memory → Except Fault α × Memory}
    (h : ∀ ⦃w s m s' m'⦄, sim.Rel w s m s' m' → A w →
      (∃ a, (use m).1 = .ok a ∧ (use' m').1 = .ok a ∧
        sim.Rel w s (use m).2 s' (use' m').2) ∨
      ∃ f f', (use m).1 = .error f ∧ (use' m').1 = .error f' ∧
        sim.Stops (.fault (f.locate (s.location p.view p.line)))
          (.fault (f'.locate (s'.location p'.view p'.line)))) :
    sim.Holds A (Render.consult p use) (Render.consult p' use') := by
  intro w s m s' m' hrel hA
  rw [Render.consult_apply, Render.consult_apply]
  have huse := h hrel hA
  generalize use m = r at huse
  generalize use' m' = r' at huse
  obtain ⟨result, n⟩ := r
  obtain ⟨result', n'⟩ := r'
  rcases huse with ⟨a, ha, ha', hrel'⟩ | ⟨f, f', hf, hf', hstops⟩
  · cases ha
    cases ha'
    exact .ok (sim.refl w) hrel'
  · cases hf
    cases hf'
    exact .stop hstops

end AtPlaces

/-- Looking functions up ends alike if both sessions remember only what the engine has, and stay
related when they remember it. -/
theorem looksUp_of_lookedUp {p p' : Place} {w : sim.World} {s s' : Session} {m m' : Memory}
    {name : String} (hmemo : ∀ f, s.functions.get? name = some f → e.function? name = some f)
    (hmemo' : ∀ f, s'.functions.get? name = some f → e.function? name = some f)
    (h : ∀ f, e.function? name = some f →
      sim.Rel w (s.lookedUp name f) m (s'.lookedUp name f) m') :
    sim.LooksUp e p p' name w s m s' m' := by
  have hfunction (p : Place) {s : Session} (m : Memory)
      (hmemo : ∀ f, s.functions.get? name = some f → e.function? name = some f) :
      Render.function e p name s m = match e.function? name with
        | some f => (.ok (f, s.lookedUp name f), m)
        | none =>
          (.error (.fault (.unknownFunction (s.location p.view p.line) name)), m) := by
    rw [Render.function_apply]
    cases hget : s.functions.get? name with
    | none =>
      cases e.function? name with
      | none => rfl
      | some f =>
        have hput : { s with functions := s.functions.put name f } = s.lookedUp name f := by
          rw [Session.lookedUp, hget]
        exact congrArg (fun t => ((.ok (f, t), m) : Render.Outcome Function)) hput
    | some f =>
      have hsame : s.lookedUp name f = s := by rw [Session.lookedUp, hget]
      simp only [hmemo f hget, hsame]
  have hfirst := hfunction p m hmemo
  have hsecond := hfunction p' m' hmemo'
  cases hf : e.function? name with
  | none =>
    rw [hf] at hfirst hsecond
    exact .unknown hfirst hsecond
  | some f =>
    rw [hf] at hfirst hsecond
    exact .found f _ _ hf hfirst hsecond (h f hf) rfl rfl

/-- Expressions end alike, wherever they are, if both sessions show calls the same and no function
of the host sees its place. -/
theorem atPlaces_of_ignoresPlace (hfunctions : ∀ factory ∈ e.functions, ∀ name f,
      factory name = some f → Function.IgnoresPlace f)
    (hstops : ∀ {stop stop' : Stop}, stop.Like stop' → sim.Stops stop stop')
    (hshown : ∀ ⦃w s m s' m'⦄, sim.Rel w s m s' m' →
      s'.iteration = s.iteration ∧ s'.language = s.language ∧ s'.calls = s.calls)
    (hmemo : ∀ ⦃w s m s' m'⦄, sim.Rel w s m s' m' → ∀ name f,
      (s.functions.get? name = some f → e.function? name = some f) ∧
        (s'.functions.get? name = some f → e.function? name = some f))
    (hlookedUp : ∀ ⦃w s m s' m'⦄, sim.Rel w s m s' m' → ∀ name f, e.function? name = some f →
      sim.Rel w (s.lookedUp name f) m (s'.lookedUp name f) m')
    (hcall : ∀ ⦃w s m s' m'⦄, sim.Rel w s m s' m' →
      sim.Rel w { s with calls := s.calls + 1 } m { s' with calls := s'.calls + 1 } m')
    (p p' : Place) : sim.AtPlaces e A p p' where
  stops hf _ _ _ _ _ _ _ := hstops (hf _ _)
  looksUp name _ _ _ _ _ hrel _ :=
    looksUp_of_lookedUp (fun f => (hmemo hrel name f).1) (fun f => (hmemo hrel name f).2)
      (hlookedUp hrel name)
  called {name f} hf args _ s _ s' _ hrel _ := by
    have hanchor : Render.anchor e p' s' =
        { Render.anchor e p s with location := s'.location p'.view p'.line } := by
      obtain ⟨hiteration, hlanguage, hcalls⟩ := hshown hrel
      simp [Render.anchor, hiteration, hlanguage, hcalls]
    have hsame := Engine.function?_induction hfunctions BuiltIn.call_ignoresPlace hf
      (Render.anchor e p s) (s'.location p'.view p'.line) args
    rw [hanchor]
    generalize f (Render.anchor e p s) args = r at hsame
    generalize f { Render.anchor e p s with location := s'.location p'.view p'.line } args = r'
      at hsame
    cases hsame with
    | ok v => exact .inl ⟨v, rfl, rfl⟩
    | stop hlike => exact .inr ⟨_, _, rfl, rfl, hstops hlike⟩
  call := hcall

end Simulation

end XmlTemplate
