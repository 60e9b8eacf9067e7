import XmlTemplate.Proofs.Template.Tree
import XmlTemplate.Proofs.Outcome

/-!
# Looking for a tag by its number

The look-up descends only into the last child whose number is not above the one in question. In
a numbered tree this finds what going through all tags of the tree would find, and a compiled
template is numbered without gaps, in the order in which its tags open.
-/

namespace XmlTemplate

namespace Tag

-- ---------------------------------------------------------------------------
-- What is found, in any tree
-- ---------------------------------------------------------------------------

mutual

/-- Only a tag of the tree that has the number is found. -/
theorem mem_tags_of_find? : ∀ {t v : Tag} {id : Nat}, t.find? id = some v → v ∈ t.tags ∧ v.id = id
  | ⟨_, name, line, kind, attributes, directives, children, selfClosing, indent⟩, v, id, h => by
    rw [find?] at h
    split at h
    · rename_i heq
      cases h
      exact ⟨mem_tags_self _, heq⟩
    · obtain ⟨hmem, heq⟩ := mem_contentTags_of_findIn? h
      exact ⟨List.mem_cons_of_mem _ hmem, heq⟩

theorem mem_contentTags_of_findIn? : ∀ {content : List (Node Tag)} {v : Tag} {id : Nat},
    findIn? id content = some v → v ∈ contentTags content ∧ v.id = id
  | [], v, id, h => by cases h
  | .text text :: rest, v, id, h => @mem_contentTags_of_findIn? rest v id h
  | .child t :: rest, v, id, h => by
    rw [findIn?] at h
    rw [contentTags, List.mem_append]
    split at h
    · cases h
    · split at h
      · exact (mem_contentTags_of_findIn? h).imp_left .inr
      · exact (mem_tags_of_find? h).imp_left .inl

end

-- ---------------------------------------------------------------------------
-- Numbered trees
-- ---------------------------------------------------------------------------

mutual

theorem IsNumbered.map_id : ∀ {t : Tag} {n : Nat}, t.IsNumbered n →
    t.tags.map Tag.id = List.range' n t.tags.length
  | ⟨id, name, line, kind, attributes, directives, children, selfClosing, indent⟩, n, h => by
    obtain ⟨rfl, hchildren⟩ := h
    rw [tags, List.map_cons, hchildren.map_id, List.length_cons, List.range'_succ]

theorem AreNumbered.map_id : ∀ {content : List (Node Tag)} {n : Nat}, AreNumbered n content →
    (contentTags content).map Tag.id = List.range' n (contentTags content).length
  | [], n, h => rfl
  | .text text :: rest, n, h => @AreNumbered.map_id rest n h
  | .child t :: rest, n, h => by
    rw [contentTags, List.map_append, h.1.map_id, AreNumbered.map_id h.2, List.length_append,
      List.range'_append_1]

end

mutual

/-- Each subtree of a numbered tree is numbered from the number of its own root on. -/
theorem IsNumbered.of_mem_tags : ∀ {t u : Tag} {n : Nat}, t.IsNumbered n → u ∈ t.tags →
    u.IsNumbered u.id
  | ⟨id, name, line, kind, attributes, directives, children, selfClosing, indent⟩, u, n, h, hu => by
    obtain ⟨rfl, hchildren⟩ := h
    rw [tags, List.mem_cons] at hu
    rcases hu with rfl | hu
    · exact ⟨rfl, hchildren⟩
    · exact hchildren.isNumbered_of_mem hu

theorem AreNumbered.isNumbered_of_mem : ∀ {content : List (Node Tag)} {u : Tag} {n : Nat},
    AreNumbered n content → u ∈ contentTags content → u.IsNumbered u.id
  | [], u, n, h, hu => by cases hu
  | .text text :: rest, u, n, h, hu => @AreNumbered.isNumbered_of_mem rest u n h hu
  | .child t :: rest, u, n, h, hu => by
    rw [contentTags, List.mem_append] at hu
    rcases hu with hu | hu
    · exact h.1.of_mem_tags hu
    · exact AreNumbered.isNumbered_of_mem h.2 hu

end

variable {t : Tag} {n : Nat}

theorem IsNumbered.find?_eq_some_iff (h : t.IsNumbered n) {id : Nat} {v : Tag} :
    t.find? id = some v ↔ v ∈ t.tags ∧ v.id = id := by
  refine ⟨mem_tags_of_find?, ?_⟩
  rintro ⟨hmem, rfl⟩
  exact h.find?_eq hmem

/-- The look-up agrees with going through all tags in the order in which they open. -/
theorem IsNumbered.find?_eq_search (h : t.IsNumbered n) (id : Nat) :
    t.find? id = t.tags.find? (·.id == id) := by
  cases hsearch : t.tags.find? (·.id == id) with
  | some v =>
    have hid : v.id = id := by simpa using List.find?_some hsearch
    exact h.find?_eq_some_iff.2 ⟨List.mem_of_find?_eq_some hsearch, hid⟩
  | none =>
    rw [Option.eq_none_iff_forall_not_mem]
    intro v hfind
    obtain ⟨hmem, hid⟩ := mem_tags_of_find? hfind
    exact List.find?_eq_none.1 hsearch v hmem (by simpa using hid)

theorem IsNumbered.isSome_find?_iff (h : t.IsNumbered n) {id : Nat} :
    (t.find? id).isSome ↔ n ≤ id ∧ id < n + t.tags.length := by
  have hids : id ∈ t.tags.map Tag.id ↔ n ≤ id ∧ id < n + t.tags.length := by
    rw [h.map_id, List.mem_range'_1]
  rw [← hids, List.mem_map, Option.isSome_iff_exists]
  exact exists_congr fun v => h.find?_eq_some_iff

end Tag

-- ---------------------------------------------------------------------------
-- Compiled templates
-- ---------------------------------------------------------------------------

/-- A template has one tag for each element of its document, numbered from 0 in the order in
which they open. -/
theorem Template.numbered_of_ofDocument {path lead : String} {document : Document} {t : Template}
    (h : ofDocument path lead document = .ok t) :
    t.IsNumbered ∧ t.root.tags.length = document.root.size := by
  obtain ⟨setting, next, helement, -⟩ := of_ofDocument h
  obtain ⟨hnumbered, hnext⟩ := Compile.isNumbered_of_element helement
  refine ⟨hnumbered, ?_⟩
  obtain ⟨hsize, -⟩ := @Compile.of_element setting 0 _ _ _ _ _ helement
  omega

/-- In a compiled template the numbers are those up to the number of elements, in the order in
which the tags open. In each subtree, looking for a number finds what going through the whole
subtree finds, which is the one tag that has the number. -/
theorem Template.find?_iff_mem_of_compile {path lead text : String} {t : Template}
    (h : compile path lead text = .ok t) :
    ∃ document, Document.read text = .ok document ∧
      t.root.tags.map Tag.id = List.range document.root.size ∧
      (∀ u ∈ t.root.tags, ∀ id, u.find? id = u.tags.find? (·.id == id) ∧
        ∀ v, u.find? id = some v ↔ v ∈ u.tags ∧ v.id = id) ∧
      ∀ id, (t.find? id).isSome ↔ id < document.root.size := by
  unfold compile at h
  split at h
  · cases h
  · rename_i document hread
    obtain ⟨hnumbered, hlength⟩ := numbered_of_ofDocument h
    refine ⟨document, hread, ?_, fun u hu id => ?_, fun id => ?_⟩
    · rw [Tag.IsNumbered.map_id hnumbered, hlength, List.range_eq_range']
    · have hu := Tag.IsNumbered.of_mem_tags hnumbered hu
      exact ⟨hu.find?_eq_search id, fun v => hu.find?_eq_some_iff⟩
    · rw [Template.find?, Tag.IsNumbered.isSome_find?_iff hnumbered, hlength]
      omega

/-- A document with text between its elements. The tag with number 3 is not in the subtree of
the last tag that is a child of the root, and no tag has number 6. -/
theorem Template.find?_iff_mem_of_compile_spaced :
    ∃ t document,
      compile "page.xml" "fig:" "<a>x<b><c/>y<d/></b> <e>z<fig:mute/></e> </a>" = .ok t ∧
      Document.read "<a>x<b><c/>y<d/></b> <e>z<fig:mute/></e> </a>" = .ok document ∧
      document.root.size = 6 ∧ t.root.tags.map Tag.id = [0, 1, 2, 3, 4, 5] ∧
      (∃ v, t.find? 3 = some v ∧ v.name = "d") ∧ t.find? 6 = none ∧
      ∃ u ∈ t.root.tags, u.id = 4 ∧ u.find? 3 = none ∧ (u.find? 5).isSome := by
  have htest : ((compile "page.xml" "fig:"
      "<a>x<b><c/>y<d/></b> <e>z<fig:mute/></e> </a>").toOption.any fun t =>
        (t.root.tags.any fun v => v.name == "d" && v.id == 3) &&
          t.root.tags.any fun u => u.id == 4 && u.tags.map Tag.id == [4, 5]) = true := by
    decide +kernel
  have hsize : (Document.read
      "<a>x<b><c/>y<d/></b> <e>z<fig:mute/></e> </a>").toOption.any (·.root.size == 6) = true := by
    decide +kernel
  obtain ⟨t, ht, htest⟩ := Outcome.exists_of_any htest
  obtain ⟨document, hread, hids, hsearch, hfind⟩ := find?_iff_mem_of_compile ht
  obtain ⟨_, hread', hsize⟩ := Outcome.exists_of_any hsize
  cases hread'.symm.trans hread
  simp only [Bool.and_eq_true, List.any_eq_true, beq_iff_eq] at hsize htest
  obtain ⟨⟨v, hv, hname, hid⟩, u, hu, huid, huids⟩ := htest
  refine ⟨t, document, ht, hread, hsize, by rw [hids, hsize]; rfl,
    ⟨v, ((hsearch t.root t.root.mem_tags_self 3).2 v).2 ⟨hv, hid⟩, hname⟩, ?_, u, hu, huid, ?_, ?_⟩
  · rw [← Option.not_isSome_iff_eq_none, hfind, hsize]
    omega
  · rw [Option.eq_none_iff_forall_not_mem]
    intro w hw
    obtain ⟨hmem, heq⟩ := ((hsearch u hu 3).2 w).1 hw
    have := List.mem_map_of_mem (f := Tag.id) hmem
    rw [huids, heq] at this
    revert this
    decide
  · have hmem : 5 ∈ u.tags.map Tag.id := by
      rw [huids]
      decide
    obtain ⟨w, hw, heq⟩ := List.mem_map.1 hmem
    exact Option.isSome_iff_exists.2 ⟨w, ((hsearch u hu 5).2 w).2 ⟨hw, heq⟩⟩

end XmlTemplate
