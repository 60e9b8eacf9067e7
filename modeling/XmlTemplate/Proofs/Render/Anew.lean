import XmlTemplate.Proofs.Render.Recall
import XmlTemplate.Proofs.Render.Simulation

/-!
# Renders that remember nothing

A render remembers functions by name and the factories of feeds by class, and the engine remembers
expressions by text. Beside such a render stands one that looks all of this up anew each time it is
used, and knows of the past only the parameters that a class of feeds was first used with. All its
other steps are the same and do not touch what is remembered. Both come to the same.
-/

namespace XmlTemplate

/-- Steps of a render that knows the parameters of the first use of each class of feeds. -/
abbrev Afresh := StateT (Table (Table Value)) Render

/-- The session with other things remembered. -/
def Session.remembering (functions : Table Function) (feedClasses : Table Nat) (s : Session) :
    Session :=
  { s with functions := functions, feedClasses := feedClasses }

/-- The memory with other expressions remembered. -/
def Memory.recalling (exprs : Table Expr) (m : Memory) : Memory := { m with parsed := exprs }

namespace Render

-- ---------------------------------------------------------------------------
-- Looking things up
-- ---------------------------------------------------------------------------

/-- The function that a name stands for. -/
def functionAnew (e : Engine) (place : Place) (name : String) : Render Function :=
  match e.function? name with
  | some f => return f
  | none => failAt place fun location => .unknownFunction location name

/-- The expression of a text. -/
def parseAnew (place : Place) (source : String) : Render Expr :=
  match Expr.parse source with
  | .ok expr => return expr
  | .error problem => failAt place fun location => .syntaxError location source problem

/-- The feed of a class, from the first factory that makes one for the parameters that the class was
first used with. -/
def findFeedAnew (e : Engine) (place : Place) (feedClass : String) (parameters : Table Value) :
    Afresh Feed := fun uses =>
  let first := (uses.get? feedClass).getD parameters
  let factory? := e.feeds.find? fun factory => (factory feedClass first).isSome
  match factory?.bind fun factory => factory feedClass parameters with
  | some feed => return (feed, uses.put feedClass first)
  | none => failAt place fun location => .unknownFeed location feedClass

/-- The outcome of a step with other things remembered in its states. -/
def Outcome.remembering (functions : Table Function) (feedClasses : Table Nat)
    (exprs : Table Expr) : Outcome α → Outcome α
  | (.ok (a, s), m) => (.ok (a, s.remembering functions feedClasses), m.recalling exprs)
  | (.error stop, m) => (.error stop, m.recalling exprs)

/-- The step neither looks at what is remembered nor changes it. -/
def IsOblivious (x : Render α) : Prop :=
  ∀ functions feedClasses exprs s m,
    x (s.remembering functions feedClasses) (m.recalling exprs) =
      Outcome.remembering functions feedClasses exprs (x s m)

/-- The second step does what the first one does, but looks up anew whatever it uses. -/
inductive Anew (e : Engine) : {α : Type} → Render α → Afresh α → Prop
  | same {α : Type} {x : Render α} (h : IsOblivious x) : Anew e x (StateT.lift x)
  | bind {α β : Type} {x : Render α} {y : Afresh α} {f : α → Render β} {g : α → Afresh β}
      (h : Anew e x y) (hfg : ∀ a, Anew e (f a) (g a)) : Anew e (x >>= f) (y >>= g)
  | function (place : Place) (name : String) :
      Anew e (function e place name) (StateT.lift (functionAnew e place name))
  | parse (place : Place) (source : String) :
      Anew e (parse place source) (StateT.lift (parseAnew place source))
  | findFeed (place : Place) (feedClass : String) (parameters : Table Value) :
      Anew e (findFeed e place feedClass parameters) (findFeedAnew e place feedClass parameters)

variable {e : Engine} {uses : Table (Table Value)} {s s' : Session} {m m' : Memory}
  {place : Place}

theorem afresh_bind_apply {α β : Type} (y : Afresh α) (g : α → Afresh β) :
    (y >>= g) uses s m = match y uses s m with
      | (.ok ((a, uses), s), m) => g a uses s m
      | (.error stop, m) => (.error stop, m) := by
  change ((y uses >>= fun p => g p.1 p.2 : Render (β × Table (Table Value))) s m) = _
  rw [bind_apply]
  rcases y uses s m with ⟨_ | ⟨⟨a, uses⟩, s⟩, m⟩ <;> rfl

theorem lift_apply {α : Type} (x : Render α) :
    (StateT.lift x : Afresh α) uses s m = match x s m with
      | (.ok (a, s), m) => (.ok ((a, uses), s), m)
      | (.error stop, m) => (.error stop, m) := by
  change ((x >>= fun a => pure (a, uses) : Render (α × Table (Table Value))) s m) = _
  rw [bind_apply]
  rcases x s m with ⟨_ | ⟨a, s⟩, m⟩ <;> rfl

-- ---------------------------------------------------------------------------
-- What is remembered is right
-- ---------------------------------------------------------------------------

/-- What the engine remembers of texts is what parsing gives. -/
def IsParsed (m : Memory) : Prop :=
  ∀ source expr, m.parsed.get? source = some expr → Expr.parse source = .ok expr

/-- The factory of a class of feeds is the first one that makes a feed for the parameters of the
first use. -/
inductive IsFirst (e : Engine) (feedClass : String) : Option Nat → Option (Table Value) → Prop
  | unused : IsFirst e feedClass none none
  | used {i : Nat} {first : Table Value} {feed : Feed}
      (h : firstFeed? feedClass first e.feeds = some (i, feed)) :
      IsFirst e feedClass (some i) (some first)

/-- What is remembered is what looking it up would give. -/
structure IsRight (e : Engine) (uses : Table (Table Value)) (s : Session) (m : Memory) : Prop where
  functions : ∀ name f, s.functions.get? name = some f → e.function? name = some f
  feeds : ∀ feedClass, IsFirst e feedClass (s.feedClasses.get? feedClass) (uses.get? feedClass)
  parsed : IsParsed m

/-- Two steps come to the same, apart from what is remembered, which is right. -/
inductive Coincides (e : Engine) (functions : Table Function) (feedClasses : Table Nat)
    (exprs : Table Expr) : {α : Type} → Outcome α → Outcome (α × Table (Table Value)) → Prop
  | ok {α : Type} {a : α} {uses : Table (Table Value)} {s : Session} {m : Memory}
      (h : IsRight e uses s m) : Coincides e functions feedClasses exprs (.ok (a, s), m)
        (.ok ((a, uses), s.remembering functions feedClasses), m.recalling exprs)
  | stop {α : Type} {stop : Stop} {m : Memory} (h : IsParsed m) :
      Coincides e functions feedClasses exprs (α := α) (.error stop, m)
        (.error stop, m.recalling exprs)

variable {functions : Table Function} {feedClasses : Table Nat} {exprs : Table Expr}

/-- The parameters of the first use find a factory just if one makes a feed for them. -/
theorem firstFeed?_eq (feedClass : String) (first : Table Value) (feeds : List FeedFactory) :
    firstFeed? feedClass first feeds = none ∧
        feeds.find? (fun factory => (factory feedClass first).isSome) = none ∨
      ∃ i factory feed, firstFeed? feedClass first feeds = some (i, feed) ∧
        feeds.find? (fun factory => (factory feedClass first).isSome) = some factory ∧
        feeds[i]? = some factory ∧ factory feedClass first = some feed := by
  induction feeds with
  | nil => exact .inl ⟨rfl, rfl⟩
  | cons factory feeds ih =>
    cases hfeed : factory feedClass first with
    | some feed =>
      exact .inr ⟨0, factory, feed, by simp [firstFeed?, hfeed], by simp [hfeed], rfl, hfeed⟩
    | none =>
      rcases ih with ⟨hnone, hfind⟩ | ⟨i, other, feed, hfirst, hfind, hi, hother⟩
      · exact .inl ⟨by simp [firstFeed?, hfeed, hnone], by simp [hfeed, hfind]⟩
      · exact .inr ⟨i + 1, other, feed, by simp [firstFeed?, hfeed, hfirst], by simp [hfeed, hfind],
          hi, hother⟩

theorem Coincides.bind {α β : Type} {x : Render α} {y : Afresh α} {f : α → Render β}
    {g : α → Afresh β}
    (h : Coincides e functions feedClasses exprs (x s m) (y uses s' m'))
    (hfg : ∀ a uses s m, IsRight e uses s m → Coincides e functions feedClasses exprs (f a s m)
      (g a uses (s.remembering functions feedClasses) (m.recalling exprs))) :
    Coincides e functions feedClasses exprs ((x >>= f) s m) ((y >>= g) uses s' m') := by
  rw [bind_apply, afresh_bind_apply]
  revert h
  generalize x s m = r
  generalize y uses s' m' = r'
  intro h
  cases h with
  | ok h => exact hfg _ _ _ _ h
  | stop h => exact .stop h

theorem IsOblivious.coincides {α : Type} {x : Render α} (h : IsOblivious x)
    (hright : IsRight e uses s m) :
    Coincides e functions feedClasses exprs (x s m) ((StateT.lift x : Afresh α) uses
      (s.remembering functions feedClasses) (m.recalling exprs)) := by
  have hself := h s.functions s.feedClasses m.parsed s m
  rw [lift_apply, h]
  change x s m = _ at hself
  generalize x s m = r at hself
  obtain ⟨stop | ⟨a, t⟩, n⟩ := r
  · have hn := congrArg Prod.snd hself
    refine .stop ?_
    change n = n.recalling m.parsed at hn
    rw [hn]
    exact hright.parsed
  · have hn := congrArg Prod.snd hself
    change n = n.recalling m.parsed at hn
    have ht := congrArg (fun r : Outcome α => r.1.map Prod.snd) hself
    change Except.ok t = Except.ok (t.remembering s.functions s.feedClasses) at ht
    refine .ok ⟨?_, ?_, ?_⟩
    · rw [Except.ok.inj ht]
      exact hright.functions
    · rw [Except.ok.inj ht]
      exact hright.feeds
    · rw [hn]
      exact hright.parsed

theorem coincides_function (hright : IsRight e uses s m) (name : String) :
    Coincides e functions feedClasses exprs (function e place name s m)
      ((StateT.lift (functionAnew e place name) : Afresh Function) uses
        (s.remembering functions feedClasses) (m.recalling exprs)) := by
  rw [function_apply, lift_apply, functionAnew]
  cases hget : s.functions.get? name with
  | some f =>
    rw [hright.functions name f hget]
    exact .ok hright
  | none =>
    cases hfound : e.function? name with
    | some f => exact .ok { hright with functions := Table.forall_put hfound hright.functions }
    | none => exact .stop hright.parsed

theorem coincides_parse (hright : IsRight e uses s m) (source : String) :
    Coincides e functions feedClasses exprs (parse place source s m)
      ((StateT.lift (parseAnew place source) : Afresh Expr) uses
        (s.remembering functions feedClasses) (m.recalling exprs)) := by
  rw [parse_apply, lift_apply, parseAnew]
  cases hget : m.parsed.get? source with
  | some expr =>
    rw [hright.parsed source expr hget]
    exact .ok hright
  | none =>
    cases hparse : Expr.parse source with
    | ok expr => exact .ok { hright with parsed := Table.forall_put hparse hright.parsed }
    | error problem => exact .stop hright.parsed

theorem findFeedAnew_apply (feedClass : String) (parameters : Table Value) :
    findFeedAnew e place feedClass parameters uses s m =
      match (e.feeds.find? fun factory =>
          (factory feedClass ((uses.get? feedClass).getD parameters)).isSome).bind
        fun factory => factory feedClass parameters with
      | some feed =>
        (.ok ((feed, uses.put feedClass ((uses.get? feedClass).getD parameters)), s), m)
      | none =>
        (.error (.fault (.unknownFeed (s.location place.view place.line) feedClass)), m) := by
  unfold findFeedAnew
  cases (e.feeds.find? _).bind _ <;> rfl

theorem coincides_findFeed (hright : IsRight e uses s m) (feedClass : String)
    (parameters : Table Value) :
    Coincides e functions feedClasses exprs (findFeed e place feedClass parameters s m)
      (findFeedAnew e place feedClass parameters uses (s.remembering functions feedClasses)
        (m.recalling exprs)) := by
  rw [findFeed_apply, findFeedAnew_apply]
  have hfirst := hright.feeds feedClass
  generalize hclass : s.feedClasses.get? feedClass = class? at hfirst
  generalize huse : uses.get? feedClass = use? at hfirst
  cases hfirst with
  | unused =>
    simp only [Option.getD_none]
    rcases firstFeed?_eq feedClass parameters e.feeds with
      ⟨hnone, hfind⟩ | ⟨i, factory, feed, hsome, hfind, hi, hfeed⟩
    · rw [hnone, hfind]
      exact .stop hright.parsed
    · rw [hsome, hfind, Option.bind_some, hfeed]
      refine .ok { hright with feeds := fun other => ?_ }
      by_cases hother : other = feedClass
      · subst hother
        rw [Table.get?_put_self, Table.get?_put_self]
        exact .used hsome
      · rw [Table.get?_put_of_ne hother, Table.get?_put_of_ne hother]
        exact hright.feeds other
  | @used i first made hmade =>
    simp only [Option.getD_some]
    rcases firstFeed?_eq feedClass first e.feeds with
      ⟨hnone, -⟩ | ⟨j, factory, feed, hsome, hfind, hi, -⟩
    · rw [hnone] at hmade
      cases hmade
    · cases hsome.symm.trans hmade
      rw [hi, hfind, Option.bind_some]
      cases factory feedClass parameters with
      | none => exact .stop hright.parsed
      | some feed =>
        refine .ok { hright with feeds := fun other => ?_ }
        by_cases hother : other = feedClass
        · subst hother
          rw [Table.get?_put_self, hclass]
          exact .used hmade
        · rw [Table.get?_put_of_ne hother]
          exact hright.feeds other

/-- Both steps come to the same, whatever is remembered, and leave what is remembered right. -/
theorem Anew.coincides {α : Type} {x : Render α} {y : Afresh α} (h : Anew e x y)
    (hright : IsRight e uses s m) :
    Coincides e functions feedClasses exprs (x s m)
      (y uses (s.remembering functions feedClasses) (m.recalling exprs)) := by
  induction h generalizing uses s m with
  | same h => exact h.coincides hright
  | bind _ _ ih ihf => exact (ih hright).bind fun a _ _ _ h => ihf a h
  | function place name => exact coincides_function hright name
  | parse place source => exact coincides_parse hright source
  | findFeed place feedClass parameters => exact coincides_findFeed hright feedClass parameters

end Render

end XmlTemplate
