import Mathlib.Data.List.Forall2
import XmlTemplate.Expr.Evaluation

/-!
# Expressions side by side

An expression is evaluated in two environments. A relation of steps that passes to what is put
together from them holds of the two evaluations, if the environments are related as far as the
expression looks: at the keys that its paths start with.
-/

namespace XmlTemplate

mutual

/-- All paths of an expression start with keys that satisfy `K`. -/
def Expr.StartsWithin (K : String → Prop) : Expr → Prop
  | .literal _ => True
  | .path [] => True
  | .path (head :: tail) => head.StartsWithin K ∧ Segment.AreWithin K tail
  | .unary _ operand => operand.StartsWithin K
  | .binary _ left right => left.StartsWithin K ∧ right.StartsWithin K
  | .call _ args => Expr.AreWithin K args

def Expr.AreWithin (K : String → Prop) : List Expr → Prop
  | [] => True
  | first :: rest => first.StartsWithin K ∧ Expr.AreWithin K rest

/-- What a path enters with its first segment satisfies `K`. A computed key may be any. -/
def Segment.StartsWithin (K : String → Prop) : Segment → Prop
  | .root => K "/"
  | .current => K "."
  | .parent => K ".."
  | .name key => K key
  | .dynamic key => key.StartsWithin K ∧ ∀ key, K key

/-- The computed keys of the other segments only have paths that start within `K`. -/
def Segment.AreWithin (K : String → Prop) : List Segment → Prop
  | [] => True
  | .dynamic key :: rest => key.StartsWithin K ∧ Segment.AreWithin K rest
  | _ :: rest => Segment.AreWithin K rest

end

/-- A relation of steps that passes to all steps put together from related ones. -/
structure Pairs (m : Type → Type) [Monad m] (P : ∀ {α : Type}, m α → m α → Prop) : Prop where
  pure {α : Type} (a : α) : P (Pure.pure a) (Pure.pure a)
  bind {α β : Type} {x y : m α} {f g : α → m β} : P x y → (∀ a, P (f a) (g a)) →
    P (x >>= f) (y >>= g)

/-- The steps of two environments are related, at keys that satisfy `K`. -/
structure Environment.Pairs {m : Type → Type} (env env' : Environment m) (K : String → Prop)
    (P : ∀ {α : Type}, m α → m α → Prop) : Prop where
  lookup {key : String} (hkey : K key) : P (env.lookup key) (env'.lookup key)
  call (name : String) (args : List Value) : P (env.call name args) (env'.call name args)
  noText : P env.noText env'.noText

namespace Pairs

variable {m : Type → Type} [Monad m] {P : ∀ {α : Type}, m α → m α → Prop}

theorem map [LawfulMonad m] (h : Pairs m P) {α β : Type} {x y : m α} (f : α → β) (hx : P x y) :
    P (f <$> x) (f <$> y) := by
  rw [map_eq_pure_bind, map_eq_pure_bind]
  exact h.bind hx fun a => h.pure (f a)

theorem foldlM (h : Pairs m P) {α β : Type} {f g : β → α → m β} {as : List α}
    (hf : ∀ b, ∀ a ∈ as, P (f b a) (g b a)) (b : β) : P (as.foldlM f b) (as.foldlM g b) := by
  induction as generalizing b with
  | nil => exact h.pure b
  | cons a as ih =>
    rw [List.foldlM_cons, List.foldlM_cons]
    exact h.bind (hf b a (List.mem_cons_self ..)) fun b =>
      ih (fun b a ha => hf b a (List.mem_cons_of_mem _ ha)) b

theorem forM (h : Pairs m P) {α : Type} {f g : α → m PUnit} {as : List α}
    (hf : ∀ a, P (f a) (g a)) : P (as.forM f) (as.forM g) := by
  induction as with
  | nil => exact h.pure _
  | cons a as ih => exact h.bind (hf a) fun _ => ih

/-- Two folds over lists whose elements are related. -/
theorem foldlM₂ (h : Pairs m P) {α γ β : Type} {R : α → γ → Prop} {f : β → α → m β}
    {g : β → γ → m β} (hf : ∀ b a c, R a c → P (f b a) (g b c)) {as : List α} {cs : List γ}
    (hlists : List.Forall₂ R as cs) (b : β) : P (as.foldlM f b) (cs.foldlM g b) := by
  induction hlists generalizing b with
  | nil => exact h.pure b
  | cons hhead _ ih =>
    rw [List.foldlM_cons, List.foldlM_cons]
    exact h.bind (hf b _ _ hhead) ih

variable {env env' : Environment m} {K : String → Prop}

mutual

theorem evaluate (h : Pairs m P) (henv : env.Pairs env' K P) :
    ∀ expr : Expr, expr.StartsWithin K → P (expr.evaluate env) (expr.evaluate env')
  | .literal l, _ => h.pure _
  | .path [], _ => h.pure _
  | .path (head :: tail), hexpr => by
    simp only [Expr.evaluate]
    exact h.bind (h.enter henv head hexpr.1) fun start => h.follow henv start tail hexpr.2
  | .unary op operand, hexpr => by
    simp only [Expr.evaluate]
    exact h.bind (h.evaluate henv operand hexpr) fun v => h.pure _
  | .binary op left right, hexpr => by
    have hleft := h.evaluate henv left hexpr.1
    have hright := h.evaluate henv right hexpr.2
    cases op with
    | and | or =>
      simp only [Expr.evaluate]
      apply h.bind hleft
      intro a
      split
      all_goals first | exact h.pure _ | exact h.bind hright fun b => h.pure _
    | _ =>
      simp only [Expr.evaluate]
      refine h.bind hleft fun a => h.bind hright fun b => ?_
      split
      · exact h.pure _
      · exact henv.noText
  | .call name args, hexpr => by
    simp only [Expr.evaluate]
    exact h.bind (h.evaluateAll henv args hexpr) fun values => henv.call name values

theorem evaluateAll (h : Pairs m P) (henv : env.Pairs env' K P) :
    ∀ exprs : List Expr, Expr.AreWithin K exprs →
      P (Expr.evaluateAll env exprs) (Expr.evaluateAll env' exprs)
  | [], _ => h.pure _
  | first :: rest, hexprs => by
    simp only [Expr.evaluateAll]
    exact h.bind (h.evaluate henv first hexprs.1) fun v =>
      h.bind (h.evaluateAll henv rest hexprs.2) fun vs => h.pure _

theorem enter (h : Pairs m P) (henv : env.Pairs env' K P) :
    ∀ segment : Segment, segment.StartsWithin K →
      P (Expr.enter env segment) (Expr.enter env' segment)
  | .root, hkey | .current, hkey | .parent, hkey | .name _, hkey => henv.lookup hkey
  | .dynamic key, hkey => by
    simp only [Expr.enter]
    apply h.bind (h.evaluate henv key hkey.1)
    intro v
    split
    · exact henv.lookup (hkey.2 _)
    · exact henv.noText

theorem follow (h : Pairs m P) (henv : env.Pairs env' K P) :
    ∀ (value : Value) (segments : List Segment), Segment.AreWithin K segments →
      P (Expr.follow env value segments) (Expr.follow env' value segments)
  | value, [], _ => by
    rw [Expr.follow.eq_def, Expr.follow.eq_def]
    exact h.pure _
  | value, segment :: rest, hsegments => by
    rw [Expr.follow.eq_def, Expr.follow.eq_def]
    cases value with
    | null => exact h.pure _
    | _ =>
      cases segment with
      | root | parent => exact h.pure _
      | current | name => exact h.follow henv _ rest hsegments
      | dynamic key =>
        apply h.bind (h.evaluate henv key hsegments.1)
        intro v
        split
        · exact h.follow henv _ rest hsegments.2
        · exact henv.noText

end

end Pairs

end XmlTemplate
