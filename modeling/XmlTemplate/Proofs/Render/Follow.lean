import XmlTemplate.Proofs.Render.Drawing
import XmlTemplate.Proofs.Render.Keep

/-!
# Renders follow drawings

Drawing a page and rendering it go the same steps. What the render puts out is the text of the tree
with the marks of its slots, each slot of the tree is one that the session has recorded, and the
session holds for every slot what the outputs of plugs so far come to.
-/

namespace XmlTemplate

open Slot (Layout Plugging Misplaced Marked)

/-! ## Texts of trees -/

/-- A text is the one of a tree with its marks, and the slots of the tree are among some. -/
structure Slot.Drawn (slots : List String) (text : String) (l : Layout) : Prop where
  text : text.toList = l.marked.text
  placed : l.Placed
  count (name : String) : l.count name ≤ slots.count name

namespace Slot.Drawn

variable {slots slots' : List String} {a b : String} {l l' : Layout}

theorem nil (slots : List String) : Drawn slots "" .nil :=
  ⟨rfl, trivial, fun _ => Nat.zero_le _⟩

theorem ofText (slots : List String) (t : String) : Drawn slots t (.ofText t) :=
  ⟨by simp [Layout.ofText, Layout.marked], trivial, fun _ => Nat.zero_le _⟩

theorem append (h : Drawn slots a l) (h' : Drawn slots' b l') :
    Drawn (slots ++ slots') (a ++ b) (l.append l') where
  text := by rw [String.toList_append, h.text, h'.text, Layout.marked_append, Marked.text_append]
  placed := Layout.placed_append.2 ⟨h.placed, h'.placed⟩
  count name := by
    rw [Layout.count_append, List.count_append]
    exact Nat.add_le_add (h.count name) (h'.count name)

theorem mono (h : Drawn slots a l) (slots' : List String) : Drawn (slots ++ slots') a l :=
  { h with
    count := fun name => by
      rw [List.count_append]
      exact Nat.le_add_right_of_le (h.count name) }

theorem mono_right (h : Drawn slots' a l) (slots : List String) : Drawn (slots ++ slots') a l :=
  { h with
    count := fun name => by
      rw [List.count_append]
      exact Nat.le_add_left_of_le (h.count name) }

theorem slot (h : Drawn slots a l) {name : String} (hname : l.count name = 0) :
    Drawn (name :: slots) (Slot.opening name ++ a ++ Slot.closing name) (.slot name l .nil) where
  text := by
    simp [Layout.marked, Marked.glyphs, Mark.text, h.text]
  placed := ⟨hname, h.placed, trivial⟩
  count other := by
    have hle := h.count other
    simp only [Layout.count, List.count_cons, beq_iff_eq]
    omega

theorem isEmpty_eq (h : Drawn slots a l) : l.isEmpty = (a == "") := by
  have hnil : l.isEmpty = true ↔ l.marked.text = [] := by
    clear h
    induction l with
    | nil => simp [Layout.isEmpty, Layout.marked]
    | text t rest ih => simp [Layout.isEmpty, Layout.marked, ih]
    | slot => simp [Layout.isEmpty, Layout.marked, Marked.glyphs, Slot.Mark.text_ne_nil]
  rw [Bool.eq_iff_iff, hnil, ← h.text]
  simp

theorem eq_of_text? (h : Drawn slots a l) {t : String} (ht : l.text? = some t) : a = t := by
  have htext : l.marked.text = t.toList := by
    clear h
    induction l generalizing t with
    | nil =>
      cases ht
      rfl
    | text u rest ih =>
      obtain ⟨v, hv, rfl⟩ := Option.map_eq_some_iff.1 ht
      simp [Layout.marked, ih hv]
    | slot => cases ht
  exact String.toList_inj.1 (h.text.trans htext)

end Slot.Drawn

open Slot (Drawn)

namespace Draw

/-! ## Steps -/

theorem bind_apply (x : Draw α) (f : α → Draw β) (ps : List Plugging) (s : Session) (m : Memory) :
    (x >>= f) ps s m = match x ps s m with
      | (.ok (.ok (a, ps), s), m) => f a ps s m
      | (.ok (.error misplaced, s), m) => (.ok (.error misplaced, s), m)
      | (.error stop, m) => (.error stop, m) := by
  simp only [bind, StateT.bind, ExceptT.bind, ExceptT.mk]
  rcases x ps s m with ⟨_ | ⟨_ | ⟨a, ps⟩, s⟩, m⟩ <;> rfl

theorem lift_apply (x : Render α) (ps : List Plugging) (s : Session) (m : Memory) :
    (liftM x : Draw α) ps s m = match x s m with
      | (.ok (a, s), m) => (.ok (.ok (a, ps), s), m)
      | (.error stop, m) => (.error stop, m) := by
  simp only [liftM, monadLift, MonadLift.monadLift, StateT.lift, ExceptT.lift, ExceptT.mk, bind,
    StateT.bind, ExceptT.bind, Functor.map, StateT.map]
  rcases x s m with ⟨_ | ⟨a, s⟩, m⟩ <;> rfl

end Draw

/-- The session has the same slots and plugs. -/
structure Session.SameSlots (s s' : Session) : Prop where
  slots : s'.slots = s.slots
  plugs : s'.plugs = s.plugs

namespace Session

theorem SameSlots.refl (s : Session) : s.SameSlots s := ⟨rfl, rfl⟩

theorem SameSlots.trans {s t u : Session} (h : s.SameSlots t) (k : t.SameSlots u) :
    s.SameSlots u :=
  ⟨k.slots.trans h.slots, k.plugs.trans h.plugs⟩

theorem Keeps.sameSlots {s s' : Session} (h : s.Keeps s') : s.SameSlots s' := ⟨h.slots, h.plugs⟩

end Session

namespace Render

/-- Whenever the step ends, the session has the same slots and plugs. -/
abbrev Aside (x : Render α) : Prop := Steps Session.SameSlots x

theorem Steps.aside {x : Render α} (h : Keeping x) : Aside x :=
  fun s _ _ _ _ hx => (h s hx).sameSlots

theorem aside_local (e : Engine) : Local e Aside :=
  (keeping_local e).mono (steps_composes Session.SameSlots.refl Session.SameSlots.trans) Steps.aside

/-- The session holds what the outputs of plugs come to. -/
def Agrees (s : Session) (pluggings : List Plugging) : Prop :=
  ∀ name, s.plugs.get? name = Slot.plugged? name pluggings

theorem Agrees.of_sameSlots {s s' : Session} {ps : List Plugging} (h : Agrees s ps)
    (hs : s.SameSlots s') : Agrees s' ps := by
  intro name
  rw [hs.plugs]
  exact h name

theorem Agrees.plug {s : Session} {ps : List Plugging} (h : Agrees s ps) (p : Plugging) :
    Agrees (s.plug p.name p.output p.append) (p :: ps) := by
  intro name
  by_cases hname : p.name = name
  · subst hname
    rw [Session.plug, Table.get?_put_self, Slot.plugged?_cons_self, h p.name]
  · rw [Session.plug, Table.get?_put_of_ne (Ne.symm hname), Slot.plugged?_cons_of_ne hname, h name]

/-! ## Following -/

/-- A render goes the same way as a drawing that starts from the session, up to a relation of the
results that may depend on the slots met on the way. -/
structure FollowsFrom (s : Session) (V : List String → α → β → Prop) (x : Render α)
    (y : Draw β) : Prop where
  ok : ∀ ⦃ps m b ps' s' m'⦄, Agrees s ps → y ps s m = (.ok (.ok (b, ps'), s'), m') →
    ∃ a slots, x s m = (.ok (a, s'), m') ∧ s'.slots = s.slots ++ slots ∧ V slots a b ∧ Agrees s' ps'
  stop : ∀ ⦃ps m stop m'⦄, Agrees s ps → y ps s m = (.error stop, m') → x s m = (.error stop, m')

/-- A render goes the same way as a drawing. -/
def Follows (V : List String → α → β → Prop) (x : Render α) (y : Draw β) : Prop :=
  ∀ s, FollowsFrom s V x y

/-- The two results are the same. -/
def Same (_ : List String) (a b : α) : Prop := a = b

theorem same_refl (slots : List String) (a : α) : Same slots a a := rfl

section

variable {V : List String → α → β → Prop} {W : List String → γ → δ → Prop}

theorem follows_pure {a : α} {b : β} (h : V [] a b) :
    Follows V (pure a : Render α) (pure b : Draw β) := by
  intro s
  constructor
  · intro ps m b' ps' s' m' hagrees hy
    cases hy
    exact ⟨a, [], rfl, (List.append_nil _).symm, h, hagrees⟩
  · intro ps m stop m' _ hy
    cases hy

theorem follows_mono {V' : List String → α → β → Prop}
    (hV : ∀ slots a b, V slots a b → V' slots a b) {x : Render α} {y : Draw β}
    (h : Follows V x y) : Follows V' x y := by
  intro s
  constructor
  · intro ps m b ps' s' m' hagrees hy
    obtain ⟨a, slots, hx, hslots, hab, hagrees'⟩ := (h s).ok hagrees hy
    exact ⟨a, slots, hx, hslots, hV slots a b hab, hagrees'⟩
  · exact (h s).stop

theorem follows_throw (x : Render α) (misplaced : Misplaced) :
    Follows V x (throw misplaced : Draw β) := by
  intro s
  constructor
  · intro ps m b ps' s' m' _ hy
    cases hy
  · intro ps m stop m' _ hy
    cases hy

theorem follows_lift {U : List String → α → α → Prop} {x : Render α} (hx : Aside x)
    (hU : ∀ a, U [] a a) : Follows U x (liftM x) := by
  intro s
  constructor
  · intro ps m a ps' s' m' hagrees hy
    rw [Draw.lift_apply] at hy
    cases hxs : x s m with
    | mk result m₁ =>
      rw [hxs] at hy
      cases result with
      | error stop => cases hy
      | ok p =>
        cases hy
        have hsame := hx s hxs
        exact ⟨_, [], rfl, by rw [hsame.slots, List.append_nil], hU _, hagrees.of_sameSlots hsame⟩
  · intro ps m stop m' _ hy
    rw [Draw.lift_apply] at hy
    cases hxs : x s m with
    | mk result m₁ =>
      rw [hxs] at hy
      cases result with
      | error stop =>
        cases hy
        rfl
      | ok p => cases hy

theorem followsFrom_bind {s : Session} {x : Render α} {y : Draw β} {f : α → Render γ}
    {g : β → Draw δ} (h : FollowsFrom s V x y)
    (k : ∀ slots a b, V slots a b → Follows (fun more => W (slots ++ more)) (f a) (g b)) :
    FollowsFrom s W (x >>= f) (y >>= g) := by
  constructor
  · intro ps m d ps' s' m' hagrees hy
    rw [Draw.bind_apply] at hy
    rcases hys : y ps s m with ⟨_ | ⟨_ | ⟨b, ps₁⟩, s₁⟩, m₁⟩
    · rw [hys] at hy
      cases hy
    · rw [hys] at hy
      cases hy
    · rw [hys] at hy
      obtain ⟨a, slots, hx, hslots, hV, hagrees₁⟩ := h.ok hagrees hys
      obtain ⟨c, more, hf, hmore, hW, hagrees₂⟩ := (k slots a b hV s₁).ok hagrees₁ hy
      refine ⟨c, slots ++ more, bind_eq_ok_iff.2 ⟨a, s₁, m₁, hx, hf⟩, ?_, hW, hagrees₂⟩
      rw [hmore, hslots, List.append_assoc]
  · intro ps m stop m' hagrees hy
    rw [Draw.bind_apply] at hy
    rw [Render.bind_apply]
    rcases hys : y ps s m with ⟨_ | ⟨_ | ⟨b, ps₁⟩, s₁⟩, m₁⟩
    · rw [hys] at hy
      cases hy
      rw [h.stop hagrees hys]
    · rw [hys] at hy
      cases hy
    · rw [hys] at hy
      obtain ⟨a, slots, hx, -, hV, hagrees₁⟩ := h.ok hagrees hys
      rw [hx]
      exact (k slots a b hV s₁).stop hagrees₁ hy

theorem follows_bind {x : Render α} {y : Draw β} {f : α → Render γ} {g : β → Draw δ}
    (h : Follows V x y)
    (k : ∀ slots a b, V slots a b → Follows (fun more => W (slots ++ more)) (f a) (g b)) :
    Follows W (x >>= f) (y >>= g) :=
  fun s => followsFrom_bind (h s) k

/-- A step that is the same in both goes first. -/
theorem follows_lift_bind {x : Render α} {f : α → Render γ} {g : α → Draw δ} (hx : Aside x)
    (k : ∀ a, Follows W (f a) (g a)) : Follows W (x >>= f) (liftM x >>= g) := by
  refine follows_bind (V := fun slots a b => slots = [] ∧ a = b)
    (follows_lift hx fun a => ⟨rfl, rfl⟩) ?_
  rintro slots a b ⟨rfl, rfl⟩
  exact k a

theorem follows_map {x : Render α} {y : Draw β} {f : α → γ} {g : β → δ} (h : Follows V x y)
    (k : ∀ slots a b, V slots a b → W slots (f a) (g b)) : Follows W (f <$> x) (g <$> y) := by
  rw [map_eq_pure_bind, map_eq_pure_bind]
  refine follows_bind h fun slots a b hV => follows_pure ?_
  rw [List.append_nil]
  exact k slots a b hV

/-- The drawing turns the result into another one that is related to the result of the render. -/
theorem follows_bind_pure {U : List String → α → δ → Prop} {x : Render α} {y : Draw β} {g : β → δ}
    (h : Follows V x y) (k : ∀ slots a b, V slots a b → U slots a (g b)) :
    Follows U x (y >>= fun b => pure (g b)) := by
  rw [← bind_pure x]
  refine follows_bind h fun slots a b hV => follows_pure ?_
  rw [List.append_nil]
  exact k slots a b hV

theorem follows_foldlM {f : α → γ → Render α} {g : β → γ → Draw β}
    (hstep : ∀ slots a b c, V slots a b → Follows (fun more => V (slots ++ more)) (f a c) (g b c))
    {slots : List String} {a : α} {b : β} (h : V slots a b) (cs : List γ) :
    Follows (fun more => V (slots ++ more)) (cs.foldlM f a) (cs.foldlM g b) := by
  induction cs generalizing slots a b with
  | nil => exact follows_pure (by rwa [List.append_nil])
  | cons c cs ih =>
    apply follows_bind (hstep slots a b c h)
    intro more a b hV
    simpa only [List.append_assoc] using ih hV

/-! ## Steps on the session -/

theorem follows_get_bind {f : Session → Render γ} {g : Session → Draw δ}
    (k : ∀ s, FollowsFrom s W (f s) (g s)) : Follows W (get >>= f) (getThe Session >>= g) :=
  fun s => ⟨(k s).ok, (k s).stop⟩

theorem follows_modify {change : Session → Session} (hs : ∀ s : Session, s.SameSlots (change s)) :
    Follows Same (modify change) (modifyThe Session change) :=
  follows_lift (steps_modify hs) (same_refl [])

theorem followsFrom_set_bind {s t : Session} (hs : s.SameSlots t) {f : Unit → Render γ}
    {g : Unit → Draw δ} (k : Follows W (f ()) (g ())) :
    FollowsFrom s W (set t >>= f) (set t >>= g) := by
  constructor
  · intro ps m d ps' s' m' hagrees hy
    obtain ⟨c, slots, hf, hslots, hW, hagrees'⟩ := (k t).ok (hagrees.of_sameSlots hs) hy
    exact ⟨c, slots, hf, by rw [hslots, hs.slots], hW, hagrees'⟩
  · intro ps m stop m' hagrees hy
    exact (k t).stop (hagrees.of_sameSlots hs) hy

theorem follows_modify_bind {change : Session → Session}
    (hs : ∀ s : Session, s.SameSlots (change s)) {f : Unit → Render γ} {g : Unit → Draw δ}
    (k : Follows W (f ()) (g ())) :
    Follows W (modify change >>= f) (modifyThe Session change >>= g) := by
  intro s
  constructor
  · intro ps m d ps' s' m' hagrees hy
    obtain ⟨c, slots, hf, hslots, hW, hagrees'⟩ := (k _).ok (hagrees.of_sameSlots (hs s)) hy
    exact ⟨c, slots, hf, by rw [hslots, (hs s).slots], hW, hagrees'⟩
  · intro ps m stop m' hagrees hy
    exact (k _).stop (hagrees.of_sameSlots (hs s)) hy

theorem follows_recordSlot (name : String) :
    Follows (fun slots _ _ => slots = [name]) (modify (Session.recordSlot name))
      (modifyThe Session (Session.recordSlot name)) := by
  intro s
  constructor
  · intro ps m d ps' s' m' hagrees hy
    cases hy
    exact ⟨(), [name], rfl, rfl, rfl, hagrees⟩
  · intro ps m stop m' hagrees hy
    cases hy

theorem follows_record (p : Plugging) :
    Follows Same (modify (Session.plug p.name p.output p.append)) (do
      modifyThe Session (Session.plug p.name p.output p.append)
      modify (p :: ·)) := by
  intro s
  constructor
  · intro ps m d ps' s' m' hagrees hy
    cases hy
    exact ⟨(), [], rfl, (List.append_nil _).symm, rfl, hagrees.plug p⟩
  · intro ps m stop m' hagrees hy
    cases hy

end

end Render

end XmlTemplate
