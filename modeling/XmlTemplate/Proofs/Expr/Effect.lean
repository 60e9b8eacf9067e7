import XmlTemplate.Expr.Evaluation

/-!
# Effects of expressions

An expression has no effects of its own. A property of steps that passes from steps to what is put
together from them, and that the steps of an environment have, holds of every evaluation there.
-/

namespace XmlTemplate

/-- A property of steps that passes to all steps put together from steps that have it. -/
structure Composes (m : Type → Type) [Monad m] (P : ∀ {α : Type}, m α → Prop) : Prop where
  pure {α : Type} (a : α) : P (Pure.pure a)
  bind {α β : Type} {x : m α} {f : α → m β} : P x → (∀ a, P (f a)) → P (x >>= f)

/-- All steps of an environment have a property. -/
structure Environment.All {m : Type → Type} (env : Environment m)
    (P : ∀ {α : Type}, m α → Prop) : Prop where
  lookup (key : String) : P (env.lookup key)
  call (name : String) (args : List Value) : P (env.call name args)
  noText : P env.noText

namespace Composes

variable {m : Type → Type} [Monad m] {P : ∀ {α : Type}, m α → Prop}

theorem map [LawfulMonad m] (h : Composes m P) {α β : Type} {x : m α} (f : α → β) (hx : P x) :
    P (f <$> x) := by
  rw [map_eq_pure_bind]
  exact h.bind hx fun a => h.pure (f a)

theorem foldlM (h : Composes m P) {α β : Type} {f : β → α → m β} (hf : ∀ b a, P (f b a)) (b : β)
    (as : List α) : P (as.foldlM f b) := by
  induction as generalizing b with
  | nil => exact h.pure b
  | cons a as ih =>
    rw [List.foldlM_cons]
    exact h.bind (hf b a) fun b => ih b

theorem forM (h : Composes m P) {α : Type} {f : α → m PUnit} (hf : ∀ a, P (f a)) (as : List α) :
    P (as.forM f) := by
  induction as with
  | nil => exact h.pure _
  | cons a as ih =>
    exact h.bind (hf a) fun _ => ih

variable {env : Environment m}

mutual

theorem evaluate (h : Composes m P) (henv : env.All P) (expr : Expr) : P (expr.evaluate env) := by
  cases expr with
  | literal l => exact h.pure _
  | path segments =>
    cases segments with
    | nil => exact h.pure _
    | cons head tail =>
      simp only [Expr.evaluate]
      exact h.bind (h.enter henv head) fun start => h.follow henv start tail
  | unary op operand =>
    simp only [Expr.evaluate]
    exact h.bind (h.evaluate henv operand) fun v => h.pure _
  | binary op left right =>
    have hleft := h.evaluate henv left
    have hright := h.evaluate henv right
    cases op with
    | and | or =>
      simp only [Expr.evaluate]
      apply h.bind hleft
      intro a
      split
      all_goals first | exact h.pure _ | exact h.bind hright fun b => h.pure _
    | _ =>
      simp only [Expr.evaluate]
      refine h.bind hleft fun a => h.bind hright fun b => ?_
      split
      · exact h.pure _
      · exact henv.noText
  | call name args =>
    simp only [Expr.evaluate]
    exact h.bind (h.evaluateAll henv args) fun values => henv.call name values

theorem evaluateAll (h : Composes m P) (henv : env.All P) (exprs : List Expr) :
    P (Expr.evaluateAll env exprs) := by
  cases exprs with
  | nil => exact h.pure _
  | cons first rest =>
    simp only [Expr.evaluateAll]
    exact h.bind (h.evaluate henv first) fun v =>
      h.bind (h.evaluateAll henv rest) fun vs => h.pure _

theorem enter (h : Composes m P) (henv : env.All P) (segment : Segment) :
    P (Expr.enter env segment) := by
  cases segment with
  | root | current | parent | name => exact henv.lookup _
  | dynamic key =>
    simp only [Expr.enter]
    apply h.bind (h.evaluate henv key)
    intro v
    split
    · exact henv.lookup _
    · exact henv.noText

theorem follow (h : Composes m P) (henv : env.All P) (value : Value) (segments : List Segment) :
    P (Expr.follow env value segments) := by
  rw [Expr.follow.eq_def]
  split
  · exact h.pure _
  · exact h.pure _
  · exact h.follow henv _ _
  · exact h.follow henv _ _
  · apply h.bind (h.evaluate henv _)
    intro v
    split
    · exact h.follow henv _ _
    · exact henv.noText
  · exact h.pure _
  · exact h.pure _

end

end Composes

end XmlTemplate
