import XmlTemplate.Proofs.Template.Numbers

/-!
# The tags of a template

All tags of a tree in the order in which they open. In a compiled template this is the order of
their numbers, without gaps, so that a tag is found again by its number.
-/

namespace XmlTemplate

namespace Tag

mutual

/-- A tag and all tags in it, in the order in which they open. -/
def tags : Tag → List Tag
  | ⟨id, name, line, kind, attributes, directives, children, selfClosing, indent⟩ =>
    ⟨id, name, line, kind, attributes, directives, children, selfClosing, indent⟩ ::
      contentTags children

/-- All tags in some content. -/
def contentTags : List (Node Tag) → List Tag
  | [] => []
  | .text _ :: rest => contentTags rest
  | .child t :: rest => t.tags ++ contentTags rest

end

theorem tags_eq (t : Tag) : t.tags = t :: contentTags t.children := by
  obtain ⟨⟩ := t
  rfl

theorem mem_tags_self (t : Tag) : t ∈ t.tags := by
  rw [tags_eq]
  exact List.mem_cons_self ..

theorem mem_contentTags_iff {content : List (Node Tag)} {u : Tag} :
    u ∈ contentTags content ↔ ∃ c, .child c ∈ content ∧ u ∈ c.tags := by
  induction content with
  | nil => simp [contentTags]
  | cons node rest ih => cases node <;> simp [contentTags, ih, or_and_right, exists_or]

theorem mem_tags_iff {t u : Tag} :
    u ∈ t.tags ↔ u = t ∨ ∃ c, .child c ∈ t.children ∧ u ∈ c.tags := by
  rw [tags_eq, List.mem_cons, mem_contentTags_iff]

theorem mem_tags_of_child {t c : Tag} (h : .child c ∈ t.children) : c ∈ t.tags :=
  mem_tags_iff.2 (.inr ⟨c, h, c.mem_tags_self⟩)

mutual

/-- What passes from the children of a tag to the tag holds of all tags. -/
theorem induction {P : Tag → Prop} (h : ∀ t : Tag, (∀ c, .child c ∈ t.children → P c) → P t) :
    ∀ t : Tag, P t
  | ⟨id, name, line, kind, attributes, directives, children, selfClosing, indent⟩ =>
    h ⟨id, name, line, kind, attributes, directives, children, selfClosing, indent⟩
      (induction_content h children)

theorem induction_content {P : Tag → Prop}
    (h : ∀ t : Tag, (∀ c, .child c ∈ t.children → P c) → P t) :
    ∀ content : List (Node Tag), ∀ c, .child c ∈ content → P c
  | [], c, hc => by cases hc
  | .text text :: rest, c, hc => induction_content h rest c (by simpa using hc)
  | .child t :: rest, c, hc => by
    rcases List.mem_cons.1 hc with heq | hc
    · cases heq
      exact induction h t
    · exact induction_content h rest c hc

end

theorem mem_tags_trans {t u v : Tag} (hu : u ∈ t.tags) (hv : v ∈ u.tags) : v ∈ t.tags := by
  induction t using induction with
  | h t ih =>
    rcases mem_tags_iff.1 hu with rfl | ⟨c, hc, hu⟩
    · exact hv
    · exact mem_tags_iff.2 (.inr ⟨c, hc, ih c hc hu⟩)

theorem mem_tags_of_mem_contentTags {t u v : Tag} (hu : u ∈ t.tags)
    (hv : v ∈ contentTags u.children) : v ∈ t.tags := by
  refine mem_tags_trans hu ?_
  rw [tags_eq]
  exact List.mem_cons_of_mem _ hv

theorem mem_contentTags_trans {content : List (Node Tag)} {u v : Tag}
    (hu : u ∈ contentTags content) (hv : v ∈ u.tags) : v ∈ contentTags content := by
  obtain ⟨c, hc, hu⟩ := mem_contentTags_iff.1 hu
  exact mem_contentTags_iff.2 ⟨c, hc, mem_tags_trans hu hv⟩

-- ---------------------------------------------------------------------------
-- Numbers
-- ---------------------------------------------------------------------------

mutual

/-- The tags of a tree are numbered from `n` on. -/
def IsNumbered (n : Nat) : Tag → Prop
  | ⟨id, _, _, _, _, _, children, _, _⟩ => id = n ∧ AreNumbered (n + 1) children

/-- The tags of some content are numbered from `n` on. -/
def AreNumbered (n : Nat) : List (Node Tag) → Prop
  | [] => True
  | .text _ :: rest => AreNumbered n rest
  | .child t :: rest => t.IsNumbered n ∧ AreNumbered (n + t.tags.length) rest

end

mutual

theorem IsNumbered.mem_range : ∀ {t u : Tag} {n : Nat}, t.IsNumbered n → u ∈ t.tags →
    n ≤ u.id ∧ u.id < n + t.tags.length
  | ⟨id, name, line, kind, attributes, directives, children, selfClosing, indent⟩, u, n, h, hu => by
    obtain ⟨rfl, hchildren⟩ := h
    rw [tags, List.mem_cons] at hu
    rw [tags, List.length_cons]
    rcases hu with rfl | hu
    · exact ⟨Nat.le_refl _, Nat.lt_add_of_pos_right (Nat.succ_pos _)⟩
    · obtain ⟨hlow, hhigh⟩ := AreNumbered.mem_range hchildren hu
      omega

theorem AreNumbered.mem_range : ∀ {content : List (Node Tag)} {u : Tag} {n : Nat},
    AreNumbered n content → u ∈ contentTags content →
      n ≤ u.id ∧ u.id < n + (contentTags content).length
  | [], u, n, h, hu => by cases hu
  | .text text :: rest, u, n, h, hu => by
    have hrest : AreNumbered n rest := h
    exact hrest.mem_range hu
  | .child t :: rest, u, n, h, hu => by
    rw [contentTags, List.mem_append] at hu
    rw [contentTags, List.length_append]
    rcases hu with hu | hu
    · obtain ⟨hlow, hhigh⟩ := h.1.mem_range hu
      omega
    · obtain ⟨hlow, hhigh⟩ := AreNumbered.mem_range h.2 hu
      omega

end

theorem IsNumbered.id_eq {t : Tag} {n : Nat} (h : t.IsNumbered n) : t.id = n := by
  obtain ⟨⟩ := t
  exact h.1

/-- The first tag of numbered content tells whether a number can be in it. -/
theorem AreNumbered.startsUpTo_eq {content : List (Node Tag)} {n : Nat} (h : AreNumbered n content)
    (target : Nat) :
    startsUpTo target content = (!(contentTags content).isEmpty && n ≤ target) := by
  induction content with
  | nil => rfl
  | cons node rest ih =>
    cases node with
    | text text => exact ih h
    | child t => simp [startsUpTo, contentTags, tags_eq, h.1.id_eq]

mutual

/-- A tag of a numbered tree is found by its number. -/
theorem IsNumbered.find?_eq : ∀ {t u : Tag} {n : Nat}, t.IsNumbered n → u ∈ t.tags →
    t.find? u.id = some u
  | ⟨id, name, line, kind, attributes, directives, children, selfClosing, indent⟩, u, n, h, hu => by
    obtain ⟨rfl, hchildren⟩ := h
    rw [tags, List.mem_cons] at hu
    rw [find?]
    rcases hu with rfl | hu
    · exact if_pos rfl
    · have hlow := (hchildren.mem_range hu).1
      rw [if_neg (by omega)]
      exact hchildren.findIn?_eq hu

theorem AreNumbered.findIn?_eq : ∀ {content : List (Node Tag)} {u : Tag} {n : Nat},
    AreNumbered n content → u ∈ contentTags content → findIn? u.id content = some u
  | [], u, n, h, hu => by cases hu
  | .text text :: rest, u, n, h, hu => by
    have hrest : AreNumbered n rest := h
    exact hrest.findIn?_eq hu
  | .child t :: rest, u, n, h, hu => by
    rw [contentTags, List.mem_append] at hu
    rw [findIn?, h.1.id_eq, h.2.startsUpTo_eq]
    rcases hu with hu | hu
    · obtain ⟨hlow, hhigh⟩ := h.1.mem_range hu
      rw [if_neg (by omega), if_neg (by simp; omega)]
      exact h.1.find?_eq hu
    · have hlow := (h.2.mem_range hu).1
      have hnotEmpty : (contentTags rest).isEmpty = false := by
        rw [List.isEmpty_eq_false_iff]
        exact List.ne_nil_of_mem hu
      rw [if_neg (by omega), if_pos (by simp [hnotEmpty]; omega)]
      exact AreNumbered.findIn?_eq h.2 hu

end

end Tag

namespace Compile

open Outcome (of_bind)

mutual

theorem isNumbered_of_element {s : Setting} :
    ∀ {e : Element} {id next : Nat} {indent : Option String} {t : Tag},
      element s id indent e = .ok (t, next) → t.IsNumbered id ∧ next = id + t.tags.length
  | ⟨name, attributes, line, selfClosing, children⟩, id, next, indent, t, h => by
    rw [element] at h
    obtain ⟨directives, -, h⟩ := of_bind h
    obtain ⟨⟨kind, plain⟩, -, h⟩ := of_bind h
    obtain ⟨⟨content, after⟩, hcontent, h⟩ := of_bind h
    obtain ⟨hnumbered, hafter⟩ := areNumbered_of_content hcontent
    simp only at h
    split at h
    · cases h
    · cases h
      refine ⟨⟨rfl, hnumbered⟩, ?_⟩
      rw [hafter, Tag.tags, List.length_cons]
      omega

theorem areNumbered_of_content {s : Setting} :
    ∀ {es : List (Node Element)} {id next : Nat} {indent : Option String} {ts : List (Node Tag)},
      content s id indent es = .ok (ts, next) →
        Tag.AreNumbered id ts ∧ next = id + (Tag.contentTags ts).length
  | [], id, next, indent, ts, h => by
    rw [content] at h
    cases h
    exact ⟨trivial, rfl⟩
  | .text text :: rest, id, next, indent, ts, h => by
    rw [content] at h
    obtain ⟨⟨others, after⟩, hrest, h⟩ := of_bind h
    cases h
    have hothers := areNumbered_of_content hrest
    exact hothers
  | .child e :: rest, id, next, indent, ts, h => by
    rw [content] at h
    obtain ⟨⟨t, middle⟩, helement, h⟩ := of_bind h
    obtain ⟨⟨others, after⟩, hrest, h⟩ := of_bind h
    cases h
    obtain ⟨ht, rfl⟩ := isNumbered_of_element helement
    obtain ⟨hothers, hnext⟩ := areNumbered_of_content hrest
    refine ⟨⟨ht, hothers⟩, ?_⟩
    rw [hnext, Tag.contentTags, List.length_append]
    omega

end

mutual

/-- Every tag is compiled of some element. -/
theorem exists_element_of_mem_tags {s : Setting} :
    ∀ {e : Element} {id next : Nat} {indent : Option String} {t : Tag},
      element s id indent e = .ok (t, next) → ∀ u ∈ t.tags,
        ∃ e' id' next' indent', element s id' indent' e' = .ok (u, next')
  | ⟨name, attributes, line, selfClosing, children⟩, id, next, indent, t, h, u, hu => by
    have helement := h
    rw [element] at h
    obtain ⟨directives, -, h⟩ := of_bind h
    obtain ⟨⟨kind, plain⟩, -, h⟩ := of_bind h
    obtain ⟨⟨content, after⟩, hcontent, h⟩ := of_bind h
    simp only at h
    split at h
    · cases h
    · cases h
      rw [Tag.tags, List.mem_cons] at hu
      rcases hu with rfl | hu
      · exact ⟨_, _, _, _, helement⟩
      · exact exists_element_of_mem_contentTags hcontent u hu

theorem exists_element_of_mem_contentTags {s : Setting} :
    ∀ {es : List (Node Element)} {id next : Nat} {indent : Option String} {ts : List (Node Tag)},
      content s id indent es = .ok (ts, next) → ∀ u ∈ Tag.contentTags ts,
        ∃ e' id' next' indent', element s id' indent' e' = .ok (u, next')
  | [], id, next, indent, ts, h, u, hu => by
    rw [content] at h
    cases h
    cases hu
  | .text text :: rest, id, next, indent, ts, h, u, hu => by
    rw [content] at h
    obtain ⟨⟨others, after⟩, hrest, h⟩ := of_bind h
    cases h
    exact exists_element_of_mem_contentTags hrest u hu
  | .child e :: rest, id, next, indent, ts, h, u, hu => by
    rw [content] at h
    obtain ⟨⟨t, middle⟩, helement, h⟩ := of_bind h
    obtain ⟨⟨others, after⟩, hrest, h⟩ := of_bind h
    cases h
    rw [Tag.contentTags, List.mem_append] at hu
    rcases hu with hu | hu
    · exact exists_element_of_mem_tags helement u hu
    · exact exists_element_of_mem_contentTags hrest u hu

end

/-- No tag has control attributes that exclude each other. -/
theorem conflict?_of_element {s : Setting} {e : Element} {id next : Nat} {indent : Option String}
    {t : Tag} (h : element s id indent e = .ok (t, next)) :
    ∀ u ∈ t.tags, conflict? u.directives = none := by
  intro u hu
  obtain ⟨⟨name, attributes, line, selfClosing, children⟩, id, next, indent, h⟩ :=
    exists_element_of_mem_tags h u hu
  rw [element] at h
  obtain ⟨directives, -, h⟩ := of_bind h
  obtain ⟨⟨kind, plain⟩, -, h⟩ := of_bind h
  obtain ⟨⟨content, after⟩, -, h⟩ := of_bind h
  simp only at h
  split at h
  · cases h
  · rename_i hconflict
    cases h
    exact hconflict

end Compile

/-- A template whose tags are numbered as they open. -/
def Template.IsNumbered (t : Template) : Prop := t.root.IsNumbered 0

theorem Template.isNumbered_of_compile {path lead text : String} {t : Template}
    (h : compile path lead text = .ok t) : t.IsNumbered := by
  unfold compile at h
  split at h
  · cases h
  · obtain ⟨setting, next, helement, -⟩ := of_ofDocument h
    exact (Compile.isNumbered_of_element helement).1

/-- What compiling sees to: tags are numbered as they open, and no tag has control attributes that
exclude each other. -/
structure Template.IsCompiled (t : Template) : Prop where
  numbered : t.IsNumbered
  agree : ∀ u ∈ t.root.tags, Compile.conflict? u.directives = none

theorem Template.isCompiled_of_compile {path lead text : String} {t : Template}
    (h : compile path lead text = .ok t) : t.IsCompiled := by
  refine ⟨isNumbered_of_compile h, ?_⟩
  unfold compile at h
  split at h
  · cases h
  · obtain ⟨setting, next, helement, -⟩ := of_ofDocument h
    exact Compile.conflict?_of_element helement

/-- A tag of a template is found by its number. -/
theorem Template.IsNumbered.find?_eq {t : Template} (h : t.IsNumbered) {u : Tag}
    (hu : u ∈ t.root.tags) : t.find? u.id = some u :=
  Tag.IsNumbered.find?_eq h hu

end XmlTemplate
