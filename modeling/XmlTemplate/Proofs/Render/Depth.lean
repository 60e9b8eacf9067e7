import XmlTemplate.Proofs.Render.Lockstep
import XmlTemplate.Render.Page

/-!
# Depth

A render that ends within a depth ends in the same way within every greater depth. The two renders
take the same steps side by side until the shallower one runs out of depth.
-/

namespace XmlTemplate

namespace Render

/-- The one step runs out of depth, or the other one does the same. -/
def Below (x y : Render α) : Prop := ∀ s m, (x s m).1 = .error .depth ∨ y s m = x s m

variable {e : Engine}

theorem Below.refl (x : Render α) : Below x x := fun _ _ => .inr rfl

theorem below_pairs : Pairs Render Below where
  pure a := .refl _
  bind {_ _ x y f g} hx hf s m := by
    rw [bind_apply, bind_apply]
    rcases hx s m with hdepth | hsame
    · left
      rcases hrun : x s m with ⟨stop | p, n⟩
      · rw [hrun] at hdepth
        cases hdepth
        rfl
      · rw [hrun] at hdepth
        cases hdepth
    · rw [hsame]
      rcases x s m with ⟨stop | ⟨a, s₁⟩, n⟩
      · exact .inr rfl
      · exact hf a s₁ n

theorem below_along (e : Engine) (view : Nat) : Along e view view Eq Below :=
  .of_refl below_pairs .refl e view

theorem alike_eq (t : Tag) : t.Alike Eq Eq t := .self t rfl fun _ _ => rfl

section

variable {inner inner' : Renderer}
  (h : ∀ t view suppressed, Below (inner t view suppressed) (inner' t view suppressed))

include h

theorem below_inclusion (view : Nat) (t : Tag) (file : String) :
    Below (inclusion e inner view t file) (inclusion e inner' view t file) :=
  below_pairs.bind (.refl _) fun _ => below_pairs.bind (.refl _) fun _ =>
    below_pairs.bind (.refl _) fun _ => below_pairs.bind (.refl _) fun _ =>
      below_pairs.bind (h _ _ _) fun _ => .refl _

theorem below_invoke (view : Nat) (t : Tag) (name : String) (all : Table Value) :
    Below (invoke inner view t name all) (invoke inner' view t name all) := by
  refine below_pairs.bind (.refl _) fun s => ?_
  split
  · refine below_pairs.bind (.refl _) fun s => ?_
    split
    · exact .refl _
    · exact below_pairs.bind (.refl _) fun _ => below_pairs.bind (h _ _ _) fun _ => .refl _
  · exact .refl _

theorem below_tagStep (t : Tag) (view : Nat) (suppressed : Suppressed) :
    Below (tagStep e inner t view suppressed) (tagStep e inner' t view suppressed) :=
  (below_along e view).tagStep (fun hc => .inr (hc ▸ alike_eq _))
    (fun hc _ => hc ▸ below_pairs.map _ (h _ _ _)) (alike_eq t)
    (fun _ _ => below_pairs.map _ (h _ _ _))
    (fun file _ => below_inclusion h view t file) (fun _ _ _ _ => .refl _) (fun _ _ => .refl _)
    (fun name _ all => below_invoke h view t name all)

end

theorem below_tag (e : Engine) (depth : Nat) (t : Tag) (view : Nat) (suppressed : Suppressed) :
    Below (tag e depth t view suppressed) (tag e (depth + 1) t view suppressed) := by
  induction depth generalizing t view suppressed with
  | zero => exact fun _ _ => .inl rfl
  | succ depth ih => exact below_tagStep ih t view suppressed

/-- More depth does not change how a tag ends. -/
theorem tag_of_le {depth depth' : Nat} (hle : depth ≤ depth') {t : Tag} {view : Nat}
    {suppressed : Suppressed} {s : Session} {m : Memory}
    (h : (tag e depth t view suppressed s m).1 ≠ .error .depth) :
    tag e depth' t view suppressed s m = tag e depth t view suppressed s m := by
  induction hle with
  | refl => rfl
  | step _ ih => exact ((below_tag e _ t view suppressed s m).resolve_left (ih ▸ h)).trans ih

-- ---------------------------------------------------------------------------
-- Pages
-- ---------------------------------------------------------------------------

theorem page_apply (e : Engine) (depth : Nat) (template : Template) (s : Session) (m : Memory) :
    page e depth template s m = (do
      let text ← (tag e depth).output template.root 0 .none
      let s ← get
      return String.join (template.instructions.map (· ++ "\n")) ++
        Slot.splice s.slots s.plugs text : Render String) (s.addView template none) m := by
  simp only [map_eq_pure_bind, bind_assoc, pure_bind]
  rfl

theorem below_page (e : Engine) (depth : Nat) (template : Template) :
    Below (page e depth template) (page e (depth + 1) template) :=
  below_pairs.bind (.refl _) fun _ => below_pairs.bind (below_tag e depth _ _ _) fun _ => .refl _

end Render

namespace Engine

/-- Render a template as the next view of a session. -/
def renderFrom (e : Engine) (depth : Nat) (template : Template) (s : Session) (m : Memory) :
    Except Stop Rendered :=
  (Render.page e depth template s m).1.map fun (output, s) => ⟨output, s.warnings⟩

theorem renderWithin_eq (e : Engine) (depth : Nat) (template : Template) (data : Value)
    (language : Option String) (m : Memory) : (e.renderWithin depth template data language m).1 =
      e.renderFrom depth template (.start data (language.or e.language)) m := by
  unfold renderWithin renderFrom
  simp only [StateT.run]
  rcases Render.page e depth template (.start data (language.or e.language)) m with
    ⟨stop | ⟨output, s⟩, m'⟩ <;> rfl

theorem renderWithin_succ (e : Engine) {depth : Nat} {template : Template} {data : Value}
    {language : Option String} {m : Memory}
    (h : (e.renderWithin depth template data language m).1 ≠ .error .depth) :
    e.renderWithin (depth + 1) template data language m =
      e.renderWithin depth template data language m := by
  have hpage := Render.below_page e depth template (.start data (language.or e.language)) m
  unfold renderWithin at h ⊢
  simp only [StateT.run] at h ⊢
  rcases hpage with hdepth | hsame
  · split at h
    · rename_i heq
      rw [heq] at hdepth
      cases hdepth
    · rename_i heq
      rw [heq] at hdepth
      cases hdepth
      exact absurd rfl h
  · rw [hsame]

/-- More depth does not change how a render ends. -/
theorem renderWithin_of_le (e : Engine) {depth depth' : Nat} (hle : depth ≤ depth')
    {template : Template} {data : Value} {language : Option String} {m : Memory}
    (h : (e.renderWithin depth template data language m).1 ≠ .error .depth) :
    e.renderWithin depth' template data language m =
      e.renderWithin depth template data language m := by
  induction hle with
  | refl => rfl
  | step _ ih => exact (e.renderWithin_succ (ih ▸ h)).trans ih

end Engine

end XmlTemplate
