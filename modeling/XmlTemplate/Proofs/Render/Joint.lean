import XmlTemplate.Proofs.Render.Attachment

/-!
# Views of two renders

In the one render a part is included, in the other one it stands in place of the inclusion. The
views of the first render are those of the second one and the views of the part, which have no
dictionaries: they add nothing to what look-ups see. Dictionaries are attached from outside of the
part only, where both renders have the same views around.
-/

namespace XmlTemplate

namespace Views

variable {views : Views} {i : Nat}

/-- The dictionaries of a view. -/
def dictionaries (views : Views) (i : Nat) : List (Option String × Dictionary) :=
  ((views[i]?).map (·.dictionaries)).getD []

end Views

/-- A view of the first render. -/
structure Link where
  template : Template
  parent : Option Nat
  /-- The view of the second render that stands for it. -/
  target : Nat
  /-- The view is of a part that stands in place of its inclusion in the second render. -/
  isInlined : Bool
  /-- Dictionaries may be attached from the view. -/
  attaches : Bool

/-- The view with the dictionaries of its target. -/
def Link.view (views : Views) (l : Link) : View :=
  ⟨l.template, l.parent, if l.isInlined then [] else views.dictionaries l.target⟩

/-- The views of both renders, without their dictionaries. -/
structure Joint where
  links : List Link
  shapes : List (Template × Option Nat)

namespace Joint

/-- The views of the first render, by those of the second one. -/
def expand (w : Joint) (views : Views) : Views := w.links.map (Link.view views)

/-- The parent of a view, if it has one, comes before it, and its target is the parent of the
target. The target of an inlined view is the one of its parent. -/
structure Sound (w : Joint) : Prop where
  target {i : Nat} {l : Link} (hl : w.links[i]? = some l) : l.target < w.shapes.length
  parent {i p : Nat} {l : Link} (hl : w.links[i]? = some l) (hp : l.parent = some p) :
    p < i ∧ ∃ outer, w.links[p]? = some outer ∧ (l.attaches → outer.attaches) ∧
      if l.isInlined then outer.target = l.target
      else outer.target < l.target ∧ (w.shapes[l.target]?).bind (·.2) = some outer.target
  root {i : Nat} {l : Link} (hl : w.links[i]? = some l) (hp : l.parent = none) :
    l.isInlined = false ∧ (w.shapes[l.target]?).bind (·.2) = none
  attaches {i : Nat} {l : Link} (hl : w.links[i]? = some l) (hattaches : l.attaches) :
    l.isInlined = false
  injective {i j : Nat} {l k : Link} (hl : w.links[i]? = some l) (hk : w.links[j]? = some k)
    (hlinked : l.isInlined = false) (hlinked' : k.isInlined = false)
    (htarget : k.target = l.target) : j = i

variable {w : Joint} {views : Views} {i : Nat} {l : Link}

theorem expand_getElem? (hl : w.links[i]? = some l) :
    (w.expand views)[i]? = some (l.view views) := by
  rw [expand, List.getElem?_map, hl]
  rfl

section

variable (h : w.Sound) (hviews : views.map View.shape = w.shapes)

include h

theorem Sound.parent?_expand (hl : w.links[i]? = some l) :
    (w.expand views).parent? i = l.parent := by
  rw [Views.parent?, expand_getElem? hl]
  cases hp : l.parent with
  | none => simp [Link.view, hp]
  | some p => simp [Link.view, hp, (h.parent hl hp).1]

include hviews

theorem Sound.exists_target (hl : w.links[i]? = some l) : ∃ v, views[l.target]? = some v ∧
    v.parent = (w.shapes[l.target]?).bind (·.2) := by
  have htarget := h.target hl
  rw [← hviews, List.length_map] at htarget
  refine ⟨views[l.target], List.getElem?_eq_getElem htarget, ?_⟩
  rw [← hviews, List.getElem?_map, List.getElem?_eq_getElem htarget]
  rfl

/-- What a look-up searches is the same in both renders. -/
theorem Sound.searched_chain (name : Option String) (hl : w.links[i]? = some l) :
    ((w.expand views).chain i).flatMap (View.searched name) =
      (views.chain l.target).flatMap (View.searched name) := by
  induction i using Nat.strongRecOn generalizing l with
  | ind i ih =>
    obtain ⟨v, hv, hparent⟩ := h.exists_target hviews hl
    rw [Views.chain_eq (expand_getElem? hl), h.parent?_expand hl, List.flatMap_cons]
    have hsearched (hlinked : l.isInlined = false) :
        (l.view views).searched name = v.searched name := by
      simp [View.searched, Link.view, hlinked, Views.dictionaries, hv]
    cases hp : l.parent with
    | none =>
      obtain ⟨hlinked, hroot⟩ := h.root hl hp
      have hnone : views.parent? l.target = none := by simp [Views.parent?, hv, hparent, hroot]
      rw [Views.chain_eq hv, hnone, List.flatMap_cons, hsearched hlinked]
    | some p =>
      obtain ⟨hlt, outer, houter, -, htarget⟩ := h.parent hl hp
      simp only
      rw [ih p hlt houter]
      split at htarget
      · rename_i hinlined
        simp [View.searched, Link.view, hinlined, htarget]
      · rename_i hlinked
        have hsome : views.parent? l.target = some outer.target := by
          simp [Views.parent?, hv, hparent, htarget.2, htarget.1]
        rw [Views.chain_eq hv, hsome, List.flatMap_cons, hsearched (Bool.eq_false_iff.2 hlinked)]

/-- So translations are the same. -/
theorem Sound.translate_eq (hl : w.links[i]? = some l) (key : String) (name : Option String) :
    (w.expand views).translate i key name = views.translate l.target key name := by
  unfold Views.translate
  rw [h.searched_chain hviews name hl]

omit hviews in
/-- A change of the dictionaries of a view. -/
theorem Sound.expand_modify (hl : w.links[i]? = some l) (hlinked : l.isInlined = false)
    (f : View → View) (g : List (Option String × Dictionary) → List (Option String × Dictionary))
    (hf : ∀ v, f v = { v with dictionaries := g v.dictionaries })
    (htarget : l.target < views.length) :
    w.expand (List.modify views l.target f) = List.modify (w.expand views) i f := by
  apply List.ext_getElem?
  intro j
  rw [List.getElem?_modify]
  simp only [expand, List.getElem?_map]
  cases hk : w.links[j]? with
  | none => rfl
  | some k =>
    by_cases hij : i = j
    · subst hij
      cases hl.symm.trans hk
      simp [Link.view, hlinked, Views.dictionaries, hf, htarget]
    · simp only [Option.map_some, Option.map_eq_map, if_neg hij, Option.some.injEq]
      cases hinlined : k.isInlined with
      | true => simp [Link.view, hinlined]
      | false =>
        have hne : l.target ≠ k.target := fun heq =>
          hij (h.injective hl hk hlinked hinlined heq.symm).symm
        simp [Link.view, Views.dictionaries, hne]

/-- A dictionary is attached at the same view, if it is attached from outside of the part. -/
theorem Sound.expand_attachTopmost? (name : String) (d : Dictionary) (hl : w.links[i]? = some l)
    (hattaches : l.attaches) :
    (w.expand views).attachTopmost? name d i =
      (views.attachTopmost? name d l.target).map w.expand := by
  induction i using Nat.strongRecOn generalizing l with
  | ind i ih =>
    obtain ⟨v, hv, hparent⟩ := h.exists_target hviews hl
    have hlinked := h.attaches hl hattaches
    have htarget := (List.getElem?_eq_some_iff.1 hv).1
    have hhere : (if (l.view views).has name then none
        else some (List.modify (w.expand views) i (View.add (some name) d))) =
        (if v.has name then none
          else some (List.modify views l.target (View.add (some name) d))).map w.expand := by
      have hhas : (l.view views).has name = v.has name := by
        simp [View.has, Link.view, hlinked, Views.dictionaries, hv]
      rw [hhas, ← h.expand_modify hl hlinked (View.add (some name) d) (· ++ [(some name, d)])
        (fun _ => rfl) htarget]
      split <;> rfl
    rw [Views.attachTopmost?_eq _ _ (expand_getElem? hl), Views.attachTopmost?_eq _ _ hv,
      h.parent?_expand hl]
    simp only [hhere]
    cases hp : l.parent with
    | none =>
      have hnone : views.parent? l.target = none := by
        simp [Views.parent?, hv, hparent, (h.root hl hp).2]
      rw [hnone]
    | some p =>
      obtain ⟨hlt, outer, houter, houtside, houtertarget⟩ := h.parent hl hp
      rw [if_neg (Bool.eq_false_iff.1 hlinked)] at houtertarget
      have hsome : views.parent? l.target = some outer.target := by
        simp [Views.parent?, hv, hparent, houtertarget.2, houtertarget.1]
      rw [hsome]
      simp only
      rw [ih p hlt houter (houtside hattaches)]
      cases views.attachTopmost? name d outer.target <;> rfl

theorem Sound.expand_attach (name : Option String) (d : Dictionary) (hl : w.links[i]? = some l)
    (hattaches : l.attaches) :
    w.expand (views.attach name d l.target) = (w.expand views).attach name d i := by
  obtain ⟨v, hv, -⟩ := h.exists_target hviews hl
  have hlinked := h.attaches hl hattaches
  have htarget := (List.getElem?_eq_some_iff.1 hv).1
  cases name with
  | none =>
    exact h.expand_modify hl hlinked (View.add none d) (· ++ [(none, d)]) (fun _ => rfl) htarget
  | some name =>
    simp only [Views.attach]
    rw [h.expand_attachTopmost? hviews name d hl hattaches,
      ← h.expand_modify hl hlinked (View.replace name d) (View.replaceFirst name d)
        (fun _ => rfl) htarget]
    cases views.attachTopmost? name d l.target <;> rfl

end

-- ---------------------------------------------------------------------------
-- Further views
-- ---------------------------------------------------------------------------

/-- A further view in both renders, in the given views if there are any yet. -/
def addLinked (template template' : Template) (parent : Option (Nat × Nat)) (attaches : Bool)
    (w : Joint) : Joint where
  links := w.links ++ [⟨template, parent.map (·.1), w.shapes.length, false, attaches⟩]
  shapes := w.shapes ++ [(template', parent.map (·.2))]

/-- A further view in the first render alone, in a view and its target. -/
def addInlined (template : Template) (view target : Nat) (w : Joint) : Joint where
  links := w.links ++ [⟨template, some view, target, true, false⟩]
  shapes := w.shapes

theorem getElem?_concat_eq_some_iff {α : Type} {as : List α} {a b : α} {i : Nat} :
    (as ++ [a])[i]? = some b ↔ as[i]? = some b ∨ i = as.length ∧ b = a := by
  rcases Nat.lt_trichotomy i as.length with hlt | rfl | hgt
  · rw [List.getElem?_append_left hlt]
    exact ⟨.inl, fun h => h.resolve_right fun ⟨heq, _⟩ => absurd heq (Nat.ne_of_lt hlt)⟩
  · simp [eq_comm]
  · have hnone : as[i]? = none := List.getElem?_eq_none (Nat.le_of_lt hgt)
    rw [List.getElem?_append_right (Nat.le_of_lt hgt), hnone,
      List.getElem?_eq_none (Nat.sub_pos_of_lt hgt)]
    simp [Nat.ne_of_gt hgt]

theorem getElem?_concat_of_eq_some {α : Type} {as : List α} {a b : α} {i : Nat}
    (h : as[i]? = some b) : (as ++ [a])[i]? = some b :=
  getElem?_concat_eq_some_iff.2 (.inl h)

theorem Sound.addLinked (h : w.Sound) (template template' : Template) {parent : Option (Nat × Nat)}
    {attaches : Bool} (hparent : ∀ p ∈ parent, ∃ outer, w.links[p.1]? = some outer ∧
      outer.target = p.2 ∧ (attaches → outer.attaches)) :
    (w.addLinked template template' parent attaches).Sound where
  target {i l} hl := by
    simp only [Joint.addLinked, List.length_append, List.length_singleton]
    rcases getElem?_concat_eq_some_iff.1 hl with hl | ⟨-, rfl⟩
    · exact Nat.lt_succ_of_lt (h.target hl)
    · exact Nat.lt_succ_self _
  parent {i p l} hl hp := by
    rcases getElem?_concat_eq_some_iff.1 hl with hl | ⟨rfl, rfl⟩
    · obtain ⟨hlt, outer, houter, hattaches, htarget⟩ := h.parent hl hp
      refine ⟨hlt, outer, getElem?_concat_of_eq_some houter, hattaches, ?_⟩
      simp only [Joint.addLinked, List.getElem?_append_left (h.target hl)]
      exact htarget
    · cases parent with
      | none => cases hp
      | some q =>
        cases hp
        obtain ⟨outer, houter, htarget, hattaches⟩ := hparent q rfl
        refine ⟨(List.getElem?_eq_some_iff.1 houter).1, outer, getElem?_concat_of_eq_some houter,
          hattaches, ?_⟩
        rw [if_neg Bool.false_ne_true]
        refine ⟨h.target houter, ?_⟩
        simp [Joint.addLinked, htarget]
  root {i l} hl hp := by
    rcases getElem?_concat_eq_some_iff.1 hl with hl | ⟨-, rfl⟩
    · obtain ⟨hlinked, hroot⟩ := h.root hl hp
      refine ⟨hlinked, ?_⟩
      simp only [Joint.addLinked, List.getElem?_append_left (h.target hl)]
      exact hroot
    · cases parent with
      | none => simp [Joint.addLinked]
      | some q => cases hp
  attaches {i l} hl hattaches := by
    rcases getElem?_concat_eq_some_iff.1 hl with hl | ⟨-, rfl⟩
    · exact h.attaches hl hattaches
    · rfl
  injective {i j l k} hl hk hlinked hlinked' htarget := by
    rcases getElem?_concat_eq_some_iff.1 hl with hl | ⟨rfl, rfl⟩ <;>
      rcases getElem?_concat_eq_some_iff.1 hk with hk | ⟨rfl, rfl⟩
    · exact h.injective hl hk hlinked hlinked' htarget
    · exact absurd htarget.symm (Nat.ne_of_lt (h.target hl))
    · exact absurd htarget (Nat.ne_of_lt (h.target hk))
    · rfl

theorem Sound.addInlined (h : w.Sound) (template : Template) (hl : w.links[i]? = some l) :
    (w.addInlined template i l.target).Sound where
  target {j k} hk := by
    have htarget := h.target hl
    rcases getElem?_concat_eq_some_iff.1 hk with hk | ⟨-, rfl⟩
    · exact h.target hk
    · exact htarget
  parent {j p k} hk hp := by
    rcases getElem?_concat_eq_some_iff.1 hk with hk | ⟨rfl, rfl⟩
    · obtain ⟨hlt, outer, houter, hrest⟩ := h.parent hk hp
      exact ⟨hlt, outer, getElem?_concat_of_eq_some houter, hrest⟩
    · cases hp
      exact ⟨(List.getElem?_eq_some_iff.1 hl).1, l, getElem?_concat_of_eq_some hl, nofun, rfl⟩
  root {j k} hk hp := by
    rcases getElem?_concat_eq_some_iff.1 hk with hk | ⟨-, rfl⟩
    · exact h.root hk hp
    · cases hp
  attaches {j k} hk hattaches := by
    rcases getElem?_concat_eq_some_iff.1 hk with hk | ⟨-, rfl⟩
    · exact h.attaches hk hattaches
    · cases hattaches
  injective {j n k k'} hk hk' hlinked hlinked' htarget := by
    rcases getElem?_concat_eq_some_iff.1 hk with hk | ⟨rfl, rfl⟩
    · rcases getElem?_concat_eq_some_iff.1 hk' with hk' | ⟨rfl, rfl⟩
      · exact h.injective hk hk' hlinked hlinked' htarget
      · cases hlinked'
    · cases hlinked

theorem Sound.expand_addLinked (h : w.Sound) (hviews : views.map View.shape = w.shapes)
    (template template' : Template) (parent : Option (Nat × Nat)) (attaches : Bool) :
    (w.addLinked template template' parent attaches).expand
        (views ++ [⟨template', parent.map (·.2), []⟩]) =
      w.expand views ++ [⟨template, parent.map (·.1), []⟩] := by
  have hlength : w.shapes.length = views.length := by rw [← hviews, List.length_map]
  simp only [expand, Joint.addLinked, List.map_append, List.map_singleton]
  congr 1
  · refine List.map_congr_left fun l hl => ?_
    obtain ⟨i, hi⟩ := List.mem_iff_getElem?.1 hl
    have htarget := h.target hi
    rw [hlength] at htarget
    simp [Link.view, Views.dictionaries, List.getElem?_append_left htarget]
  · simp [Link.view, Views.dictionaries, hlength]

theorem expand_addInlined (template : Template) (view target : Nat) :
    (w.addInlined template view target).expand views =
      w.expand views ++ [⟨template, some view, []⟩] := by
  simp [expand, Joint.addInlined, Link.view]

end Joint

end XmlTemplate
