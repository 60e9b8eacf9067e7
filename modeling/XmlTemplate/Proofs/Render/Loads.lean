import XmlTemplate.Proofs.Render.Consult

/-!
# The templates that a render loads

A render asks its engine for templates, one after the other, and for dictionaries and expressions in
between. `Logs` tells the loads of a step in their order, with what came of them; it follows how
the step is put together, so that every step of a render has a log. What a step leaves of the
memory is what its loads leave, apart from dictionaries and expressions.
-/

namespace XmlTemplate

/-- A load of a template: the path that was asked for, and the answer. -/
structure Load where
  path : String
  answer : Except Fault Compiled

/-- The one memory follows from the other by questions, with these loads among them. -/
inductive Engine.Asks (e : Engine) : Memory → List Load → Memory → Prop
  | done (m : Memory) : Asks e m [] m
  | load {m m' : Memory} {loads : List Load} (path : String)
      (rest : Asks e (e.load path m).2 loads m') :
      Asks e m (⟨path, (e.load path m).1⟩ :: loads) m'
  | dictionary {m m' : Memory} {loads : List Load} (language file : String)
      (rest : Asks e (e.loadDictionary language file m).2 loads m') : Asks e m loads m'
  | parsed {m m' : Memory} {loads : List Load} (exprs : Table Expr)
      (rest : Asks e { m with parsed := exprs } loads m') : Asks e m loads m'

namespace Engine.Asks

variable {e : Engine} {m m' m'' : Memory} {loads loads' : List Load}

theorem trans (h : e.Asks m loads m') (k : e.Asks m' loads' m'') :
    e.Asks m (loads ++ loads') m'' := by
  induction h with
  | done => exact k
  | load path _ ih => exact .load path (ih k)
  | dictionary language file _ ih => exact .dictionary language file (ih k)
  | parsed exprs _ ih => exact .parsed exprs (ih k)

/-- What every question leaves of a memory is left by all of them. -/
theorem admits {R : Memory → Memory → Prop} (hadmits : e.Admits R) (h : e.Asks m loads m') :
    R m m' := by
  induction h with
  | done m => exact hadmits.refl m
  | load path _ ih => exact hadmits.trans (hadmits.load path _) ih
  | dictionary language file _ ih => exact hadmits.trans (hadmits.loadDictionary language file _) ih
  | parsed exprs _ ih => exact hadmits.trans (hadmits.parsed exprs _) ih

end Engine.Asks

namespace Render

-- ---------------------------------------------------------------------------
-- Logs
-- ---------------------------------------------------------------------------

/-- The steps of a render that are put together from no others and load no template. -/
inductive Plain (e : Engine) : {α : Type} → Render α → Prop
  | get : Plain e (get : Render Session)
  | set (s : Session) : Plain e (set s : Render PUnit)
  | call (place : Place) (name : String) (args : List Value) : Plain e (call e place name args)
  | parse (place : Place) (source : String) : Plain e (parse place source)
  | failAt {α : Type} (place : Place) (f : Location → Fault) :
      Plain e (failAt place f : Render α)
  | loadDictionary (place : Place) (language file : String) :
      Plain e (consult place (e.loadDictionary language file))
  | read (place : Place) (path : String) :
      Plain e (consult place fun m => (e.source.read m.files path, m))
  | depth : Plain e (throw .depth : Render (Option String))

/-- The loads that follow a step, if it ends. -/
def loadsAfter (loads : α → Session → Memory → List Load) :
    Except Stop (α × Session) × Memory → List Load
  | (.ok (a, s), m) => loads a s m
  | (.error _, _) => []

/-- The loads of a step, by the session and the memory it starts from. -/
inductive Logs (e : Engine) : {α : Type} → Render α → (Session → Memory → List Load) → Prop
  | pure {α : Type} (a : α) : Logs e (pure a) fun _ _ => []
  | bind {α β : Type} {x : Render α} {f : α → Render β} {first : Session → Memory → List Load}
      {rest : α → Session → Memory → List Load} (hx : Logs e x first)
      (hf : ∀ a, Logs e (f a) (rest a)) :
      Logs e (x >>= f) fun s m => first s m ++ loadsAfter rest (x s m)
  | plain {α : Type} {x : Render α} (h : Plain e x) : Logs e x fun _ _ => []
  | load (place : Place) (path : String) :
      Logs e (consult place (e.load path)) fun _ m => [⟨path, (e.load path m).1⟩]

/-- Every step of a render has a log. -/
theorem logged_basic (e : Engine) : Basic e fun x => ∃ loads, Logs e x loads where
  pure a := ⟨_, .pure a⟩
  bind hx hf := by
    obtain ⟨first, hx⟩ := hx
    obtain ⟨rest, hf⟩ := Classical.skolem.1 hf
    exact ⟨_, .bind hx hf⟩
  environment place :=
    { lookup := fun _ => ⟨_, .bind (.plain .get) fun s => .pure _⟩
      call := fun name args => ⟨_, .plain (.call place name args)⟩
      noText := ⟨_, .plain (.failAt place _)⟩ }
  parse place source := ⟨_, .plain (.parse place source)⟩
  failAt place f := ⟨_, .plain (.failAt place f)⟩
  get := ⟨_, .plain .get⟩
  set s := ⟨_, .plain (.set s)⟩
  load place path := ⟨_, .load place path⟩
  loadDictionary place language file := ⟨_, .plain (.loadDictionary place language file)⟩
  read place path := ⟨_, .plain (.read place path)⟩
  depth := ⟨_, .plain .depth⟩

-- ---------------------------------------------------------------------------
-- What logs say of the memory
-- ---------------------------------------------------------------------------

theorem memory_consult (place : Place) (use : Memory → Except Fault α × Memory) (s : Session)
    (m : Memory) : (consult place use s m).2 = (use m).2 := by
  rw [consult_apply]
  split
  · rename_i heq
    rw [heq]
  · rename_i heq
    rw [heq]

/-- A call leaves the memory alone. -/
theorem memory_call (e : Engine) (place : Place) (name : String) (args : List Value) (s : Session)
    (m : Memory) : (call e place name args s m).2 = m := by
  rw [call_apply, function_apply]
  cases s.functions.get? name with
  | some f =>
    simp only
    split <;> rfl
  | none =>
    cases e.function? name with
    | none => rfl
    | some f =>
      simp only
      split <;> rfl

theorem Plain.asks {e : Engine} {x : Render α} (h : Plain e x) (s : Session) (m : Memory) :
    e.Asks m [] (x s m).2 := by
  cases h with
  | get | set | failAt | depth => exact .done m
  | call place name args =>
    rw [memory_call]
    exact .done m
  | parse place source =>
    rw [parse_apply]
    split
    · exact .done m
    · split
      · exact .parsed _ (.done _)
      · exact .done m
  | loadDictionary place language file =>
    rw [memory_consult]
    exact .dictionary language file (.done _)
  | read place path =>
    rw [memory_consult]
    exact .done m

/-- The memory that a step leaves follows by the loads of its log. -/
theorem Logs.asks {e : Engine} {x : Render α} {loads : Session → Memory → List Load}
    (h : Logs e x loads) (s : Session) (m : Memory) : e.Asks m (loads s m) (x s m).2 := by
  induction h generalizing s m with
  | pure a => exact .done m
  | @bind _ _ x f first rest _ _ ihx ihf =>
    have hfirst := ihx s m
    simp only [bind_apply]
    rcases hrun : x s m with ⟨stop | ⟨a, s₁⟩, m₁⟩
    · rw [hrun] at hfirst
      exact hfirst.trans (.done m₁)
    · rw [hrun] at hfirst
      exact hfirst.trans (ihf a s₁ m₁)
  | plain h => exact h.asks s m
  | load place path =>
    rw [memory_consult]
    exact .load path (.done _)

end Render

end XmlTemplate
