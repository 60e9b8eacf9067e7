import XmlTemplate.Engine
import XmlTemplate.Proofs.Fault

/-!
# What functions see of their place

A function ignores its place if the line of the call shows in its faults only. The built-in
functions do, and none of them runs out of depth. What all functions of the host satisfy and the
built-in ones too, all functions of an engine satisfy.
-/

namespace XmlTemplate

/-- Two outcomes that are the same up to the places of faults. -/
inductive Stop.Same : Except Stop α → Except Stop α → Prop
  | ok (a : α) : Same (.ok a) (.ok a)
  | stop {stop stop' : Stop} (h : stop.Like stop') : Same (.error stop) (.error stop')

namespace Stop.Same

theorem refl (r : Except Stop α) : Same r r := by
  cases r with
  | ok a => exact .ok a
  | error stop => exact .stop (.refl stop)

theorem bind {x y : Except Stop α} {f g : α → Except Stop β} (h : Same x y)
    (hfg : ∀ a, Same (f a) (g a)) : Same (x >>= f) (y >>= g) := by
  cases h with
  | ok a => exact hfg a
  | stop h => exact .stop h

end Stop.Same

namespace Function

/-- The line of the call shows in faults only. -/
def IgnoresPlace (f : Function) : Prop :=
  ∀ (anchor : Anchor) (location : Location) (args : List Value),
    Stop.Same (f anchor args) (f { anchor with location := location } args)

/-- The function ends with a value or with a reason of its own. -/
def IsFinite (f : Function) : Prop :=
  ∀ (anchor : Anchor) (args : List Value), f anchor args ≠ .error .depth

end Function

namespace BuiltIn

theorem same_text (anchor : Anchor) (location : Location) (v : Value) :
    Stop.Same (anchor.text v) ({ anchor with location := location : Anchor }.text v) := by
  unfold Anchor.text
  cases v.text? with
  | some s => exact .ok s
  | none => exact .stop rfl

theorem same_optionalText (anchor : Anchor) (location : Location) (args : List Value) (i : Nat)
    (otherwise : String) : Stop.Same (optionalText anchor args i otherwise)
      (optionalText { anchor with location := location } args i otherwise) := by
  unfold optionalText
  cases args[i]? with
  | some v => exact same_text anchor location v
  | none => exact .ok otherwise

theorem apply_same (b : BuiltIn) (anchor : Anchor) (location : Location) (args : List Value) :
    Stop.Same (b.apply anchor args) (b.apply { anchor with location := location } args) := by
  have htext := same_text anchor location
  cases b with
  | substring => exact (htext _).bind fun text => .refl _
  | escape => exact (htext _).bind fun text => .refl _
  | formatNumber =>
    exact (same_optionalText anchor location args 2 ".").bind fun point =>
      (same_optionalText anchor location args 3 ",").bind fun separator => .refl _
  | formatStamp => exact (htext _).bind fun pattern => .refl _
  | constant => exact (htext _).bind fun name => .refl _
  | _ => exact .refl _

/-- Built-in functions ignore their place. -/
theorem call_ignoresPlace (b : BuiltIn) : Function.IgnoresPlace b.call := by
  intro anchor location args
  unfold call
  split
  · exact .stop rfl
  · exact b.apply_same anchor location args

theorem ok_ne_depth (a : α) : (.ok a : Except Stop α) ≠ .error .depth := by
  intro h
  cases h

theorem overflow_ne_depth : (throw .overflow : Except Stop α) ≠ .error .depth := by
  intro h
  cases h

theorem bind_ne_depth {x : Except Stop α} {f : α → Except Stop β} (hx : x ≠ .error .depth)
    (hf : ∀ a, f a ≠ .error .depth) : x >>= f ≠ .error .depth := by
  cases x with
  | ok a => exact hf a
  | error stop =>
    intro h
    cases h
    exact hx rfl

theorem text_ne_depth (anchor : Anchor) (v : Value) : anchor.text v ≠ .error .depth := by
  unfold Anchor.text
  split <;> simp

theorem optionalText_ne_depth (anchor : Anchor) (args : List Value) (i : Nat)
    (otherwise : String) : optionalText anchor args i otherwise ≠ .error .depth := by
  unfold optionalText
  split
  · exact text_ne_depth anchor _
  · simp

theorem apply_ne_depth (b : BuiltIn) (anchor : Anchor) (args : List Value) :
    b.apply anchor args ≠ .error .depth := by
  have htext := text_ne_depth anchor
  cases b with
  | substring =>
    refine bind_ne_depth (htext _) fun text => ?_
    simp only
    split
    · exact ok_ne_depth _
    · exact overflow_ne_depth
  | escape => exact bind_ne_depth (htext _) fun text => ok_ne_depth _
  | formatNumber =>
    refine bind_ne_depth (optionalText_ne_depth anchor args 2 ".") fun point =>
      bind_ne_depth (optionalText_ne_depth anchor args 3 ",") fun separator => ?_
    simp only
    split
    · exact ok_ne_depth _
    · exact overflow_ne_depth
  | formatStamp => exact bind_ne_depth (htext _) fun pattern => ok_ne_depth _
  | constant => exact bind_ne_depth (htext _) fun name => ok_ne_depth _
  | _ => simp [apply]

/-- Built-in functions never run out of depth. -/
theorem call_isFinite (b : BuiltIn) : Function.IsFinite b.call := by
  intro anchor args
  unfold call
  split
  · nofun
  · exact b.apply_ne_depth anchor args

end BuiltIn

namespace Engine

/-- What the functions of the host and the built-in ones satisfy. -/
theorem function?_induction {e : Engine} {Q : Function → Prop}
    (hhost : ∀ factory ∈ e.functions, ∀ name f, factory name = some f → Q f)
    (hbuiltIn : ∀ b : BuiltIn, Q b.call) {name : String} {f : Function}
    (hf : e.function? name = some f) : Q f := by
  obtain ⟨factory, hfactory, hname⟩ := List.exists_of_findSome?_eq_some hf
  rcases List.mem_append.1 hfactory with hfactory | hfactory
  · exact hhost factory hfactory name f hname
  · cases List.mem_singleton.1 hfactory
    obtain ⟨b, -, rfl⟩ := Option.map_eq_some_iff.1 hname
    exact hbuiltIn b

end Engine

end XmlTemplate
