import Mathlib.Data.List.Basic
import Mathlib.Logic.Relation
import XmlTemplate.Proofs.Render.Keep

/-!
# Dictionaries on views

Views come one after the other, each within no view or within an earlier one, and dictionaries are
attached to them in any order. As a named dictionary goes to the topmost view that has none of its
name, a name of a view is a name of all views around it. The invariant `IsLayered` says so; it tells
where the next dictionary of a name lands and that look-ups find it from there.
-/

namespace XmlTemplate

namespace View

variable {v : View} {name : String} {d : Dictionary}

/-- The names of the dictionaries of a view. -/
def names (v : View) : List String := v.dictionaries.filterMap (·.1)

theorem has_iff : v.has name ↔ name ∈ v.names := by
  simp [has, names]

theorem names_add (v : View) (name : Option String) (d : Dictionary) :
    (v.add name d).names = v.names ++ name.toList := by
  cases name <;> simp [names, add]

theorem map_fst_replaceFirst (name : String) (d : Dictionary)
    (dictionaries : List (Option String × Dictionary)) :
    (replaceFirst name d dictionaries).map (·.1) = dictionaries.map (·.1) := by
  induction dictionaries with
  | nil => rfl
  | cons p rest ih =>
    simp only [replaceFirst]
    split
    · rfl
    · rw [List.map_cons, List.map_cons, ih]

theorem names_replace (v : View) (name : String) (d : Dictionary) :
    (v.replace name d).names = v.names := by
  have hmap := congrArg (List.filterMap id) (map_fst_replaceFirst name d v.dictionaries)
  rw [List.filterMap_map, List.filterMap_map] at hmap
  exact hmap

/-- A dictionary takes the place of the first one of its name. -/
theorem exists_replaceFirst_eq {dictionaries : List (Option String × Dictionary)}
    (h : name ∈ dictionaries.filterMap (·.1)) (d : Dictionary) :
    ∃ before old rest, dictionaries = before ++ (some name, old) :: rest ∧
      name ∉ before.filterMap (·.1) ∧
      replaceFirst name d dictionaries = before ++ (some name, d) :: rest := by
  induction dictionaries with
  | nil => cases h
  | cons p rest ih =>
    obtain ⟨other, old⟩ := p
    simp only [replaceFirst]
    split
    · rename_i hother
      exact ⟨[], old, rest, by rw [hother]; rfl, nofun, by rw [hother]; rfl⟩
    · rename_i hother
      have hne : ¬ other = some name := hother
      have hrest : name ∈ rest.filterMap (·.1) := by
        simpa [List.mem_filterMap, hne] using h
      obtain ⟨before, old', rest', heq, hbefore, hreplace⟩ := ih hrest
      refine ⟨(other, old) :: before, old', rest', by rw [heq]; rfl, ?_, by rw [hreplace]; rfl⟩
      simpa [List.mem_filterMap, hne] using hbefore

/-! ## What look-ups search -/

theorem searched_eq_nil_iff : v.searched (some name) = [] ↔ name ∉ v.names := by
  simp only [searched, names, Option.isNone_some, Bool.false_or, List.map_eq_nil_iff,
    List.filter_eq_nil_iff, List.mem_filterMap, not_exists, not_and]
  refine forall₂_congr fun p _ => ?_
  obtain ⟨other, e⟩ := p
  simp

theorem searched_add_self (h : name ∉ v.names) :
    (v.add (some name) d).searched (some name) = [d] := by
  have hnil := searched_eq_nil_iff.2 h
  simp only [searched, add, List.filter_append, List.map_append] at hnil ⊢
  rw [hnil]
  simp

theorem searched_add_of_ne {other : String} (h : other ≠ name) :
    (v.add (some name) d).searched (some other) = v.searched (some other) := by
  simp [searched, add, List.filter_append, Ne.symm h]

/-- Where a dictionary was put in the place of another one, look-ups of its name find it first and
look-ups of other names see no difference. -/
theorem searched_replace (h : name ∈ v.names) (d : Dictionary) :
    (∃ rest, (v.replace name d).searched (some name) = d :: rest) ∧
      ∀ other, other ≠ name →
        (v.replace name d).searched (some other) = v.searched (some other) := by
  obtain ⟨before, old, rest, heq, hbefore, hreplace⟩ := exists_replaceFirst_eq h d
  have hafter : (v.replace name d).dictionaries = before ++ (some name, d) :: rest := hreplace
  have hnil : View.searched (some name) ⟨v.template, v.parent, before⟩ = [] :=
    searched_eq_nil_iff.2 hbefore
  simp only [searched] at hnil
  constructor
  · refine ⟨(rest.filter fun p => p.1 == some name).map (·.2), ?_⟩
    simp only [searched, hafter, List.filter_append, List.map_append]
    rw [hnil]
    simp
  · intro other hother
    simp [searched, hafter, heq, List.filter_append, Ne.symm hother]

end View

namespace Views

open Relation (ReflTransGen TransGen)

variable {views : Views} {i j p : Nat} {name : String} {d : Dictionary}

-- ---------------------------------------------------------------------------
-- Views around views
-- ---------------------------------------------------------------------------

/-- The second view is the one that includes the first one. -/
def IsParent (views : Views) (i p : Nat) : Prop := ∃ v, views[i]? = some v ∧ v.parent = some p

/-- A named dictionary that is attached at the first view lands on the second one: it is the view
itself or around it, it has no dictionary of the name, and all views further out have one. -/
structure IsTopmostWithout (views : Views) (name : String) (i j : Nat) : Prop where
  around : ReflTransGen views.IsParent i j
  lacks : ∃ w, views[j]? = some w ∧ name ∉ w.names
  above {k : Nat} (hk : TransGen views.IsParent j k) {w : View} (hw : views[k]? = some w) :
    name ∈ w.names

/-- Views come after their parents, a name stands for one dictionary of a view, and it is a name of
the parent too. -/
structure IsLayered (views : Views) : Prop where
  parent_lt {i p : Nat} (h : views.IsParent i p) : p < i
  nodup {i : Nat} {v : View} (hv : views[i]? = some v) : v.names.Nodup
  upward {i p : Nat} {v w : View} (hv : views[i]? = some v) (hp : v.parent = some p)
    (hw : views[p]? = some w) : v.names ⊆ w.names

theorem IsParent.unique {q : Nat} (h : views.IsParent i p) (h' : views.IsParent i q) : p = q := by
  obtain ⟨v, hv, hp⟩ := h
  obtain ⟨w, hw, hq⟩ := h'
  cases hv.symm.trans hw
  exact Option.some.inj (hp.symm.trans hq)

theorem chain_eq {v : View} (h : views[i]? = some v) :
    views.chain i = v :: (match views.parent? i with
      | some p => views.chain p
      | none => []) := by
  rw [chain, h]
  simp only
  split
  · rename_i p hp
    rw [hp]
  · rename_i hp
    rw [hp]

theorem attachTopmost?_eq (name : String) (d : Dictionary) {v : View} (h : views[i]? = some v) :
    attachTopmost? name d views i =
      let here := if v.has name then none else some (views.modify i (View.add (some name) d))
      match views.parent? i with
      | some p => (attachTopmost? name d views p).or here
      | none => here := by
  rw [attachTopmost?, h]
  simp only
  split
  · rename_i p hp
    rw [hp]
  · rename_i hp
    rw [hp]

namespace IsLayered

/-- The invariant at the start. -/
theorem nil : IsLayered [] where
  parent_lt h := by
    obtain ⟨v, hv, -⟩ := h
    cases hv
  nodup hv := by cases hv
  upward hv := by cases hv

theorem parent?_eq (h : views.IsLayered) {v : View} (hv : views[i]? = some v) :
    views.parent? i = v.parent := by
  rw [parent?, hv, Option.bind_some]
  cases hp : v.parent with
  | none => rfl
  | some p => simp [Option.filter, h.parent_lt ⟨v, hv, hp⟩]

/-- A view around a view comes before it. -/
theorem le_of_around (h : views.IsLayered) (haround : ReflTransGen views.IsParent i j) : j ≤ i := by
  induction haround with
  | refl => exact Nat.le_refl _
  | tail _ hstep ih => exact Nat.le_trans (Nat.le_of_lt (h.parent_lt hstep)) ih

/-- The views around a view are there, down to one that has no parent. -/
theorem exists_outermost (h : views.IsLayered) {v : View} (hv : views[i]? = some v) :
    ∃ j w, ReflTransGen views.IsParent i j ∧ views[j]? = some w ∧ w.parent = none := by
  induction i using Nat.strongRecOn generalizing v with
  | ind i ih =>
    cases hp : v.parent with
    | none => exact ⟨i, v, .refl, hv, hp⟩
    | some p =>
      have hlt := h.parent_lt ⟨v, hv, hp⟩
      have hi := (List.getElem?_eq_some_iff.1 hv).1
      obtain ⟨j, w, haround, hw, hnone⟩ := ih p hlt (List.getElem?_eq_getElem (Nat.lt_trans hlt hi))
      exact ⟨j, w, .head ⟨v, hv, hp⟩ haround, hw, hnone⟩

/-- The names of a view are names of all views around it. -/
theorem names_subset (h : views.IsLayered) (haround : ReflTransGen views.IsParent i j) {v w : View}
    (hv : views[i]? = some v) (hw : views[j]? = some w) : v.names ⊆ w.names := by
  induction haround generalizing w with
  | refl =>
    cases hv.symm.trans hw
    exact List.Subset.refl _
  | tail _ hstep ih =>
    obtain ⟨u, hu, hp⟩ := hstep
    exact List.Subset.trans (ih hu) (h.upward hu hp hw)

end IsLayered

-- ---------------------------------------------------------------------------
-- Where a dictionary lands
-- ---------------------------------------------------------------------------

/-- A named dictionary lands on the topmost view without the name, if there is one. -/
theorem IsLayered.attachTopmost?_spec (h : views.IsLayered) {v : View} (hv : views[i]? = some v)
    (name : String) (d : Dictionary) :
    (∃ j, views.IsTopmostWithout name i j ∧
      views.attachTopmost? name d i = some (List.modify views j (View.add (some name) d))) ∨
    ((∀ j w, ReflTransGen views.IsParent i j → views[j]? = some w → name ∈ w.names) ∧
      views.attachTopmost? name d i = none) := by
  induction i using Nat.strongRecOn generalizing v with
  | ind i ih =>
    -- what becomes of the dictionary once all views around have the name
    have hhere (habove : ∀ k w, TransGen views.IsParent i k → views[k]? = some w → name ∈ w.names)
        (heq : views.attachTopmost? name d i =
          if v.has name then none else some (List.modify views i (View.add (some name) d))) :
        (∃ j, views.IsTopmostWithout name i j ∧
          views.attachTopmost? name d i = some (List.modify views j (View.add (some name) d))) ∨
        ((∀ j w, ReflTransGen views.IsParent i j → views[j]? = some w → name ∈ w.names) ∧
          views.attachTopmost? name d i = none) := by
      by_cases hname : name ∈ v.names
      · refine .inr ⟨fun j w haround hw => ?_, by rw [heq, if_pos (View.has_iff.2 hname)]⟩
        rcases Relation.reflTransGen_iff_eq_or_transGen.1 haround with rfl | habove'
        · cases hv.symm.trans hw
          exact hname
        · exact habove j w habove' hw
      · refine .inl ⟨i, ⟨.refl, ⟨v, hv, hname⟩, fun hk w hw => habove _ w hk hw⟩, ?_⟩
        rw [heq, if_neg (mt View.has_iff.1 hname)]
    have heq := attachTopmost?_eq name d hv
    rw [h.parent?_eq hv] at heq
    cases hp : v.parent with
    | none =>
      rw [hp] at heq
      refine hhere (fun k w hk _ => ?_) heq
      obtain ⟨q, ⟨u, hu, hq⟩, -⟩ := Relation.TransGen.head'_iff.1 hk
      cases hv.symm.trans hu
      rw [hp] at hq
      cases hq
    | some p =>
      rw [hp] at heq
      have hstep : views.IsParent i p := ⟨v, hv, hp⟩
      have hlt := h.parent_lt hstep
      have hi := (List.getElem?_eq_some_iff.1 hv).1
      rcases ih p hlt (List.getElem?_eq_getElem (Nat.lt_trans hlt hi)) with
        ⟨j, htop, hsome⟩ | ⟨hall, hnone⟩
      · refine .inl ⟨j, { htop with around := .head hstep htop.around }, ?_⟩
        rw [heq]
        simp [hsome]
      · refine hhere (fun k w hk hw => ?_) (by rw [heq]; simp [hnone])
        obtain ⟨q, hq, hk⟩ := Relation.TransGen.head'_iff.1 hk
        cases hstep.unique hq
        exact hall k w hk hw

/-- The invariant is kept where a view gets names that its parent has. -/
theorem IsLayered.modify (h : views.IsLayered) {f : View → View} {v : View}
    (hv : views[j]? = some v) (hparent : ∀ w, (f w).parent = w.parent)
    (hnodup : (f v).names.Nodup) (hsubset : v.names ⊆ (f v).names)
    (hupward : ∀ p w, v.parent = some p → views[p]? = some w → (f v).names ⊆ w.names) :
    IsLayered (List.modify views j f) := by
  have hcases {i : Nat} {w : View} (hw : (List.modify views j f)[i]? = some w) :
      ∃ u, views[i]? = some u ∧ w.parent = u.parent ∧ u.names ⊆ w.names ∧
        (w = u ∨ i = j ∧ u = v ∧ w = f v) := by
    rw [List.getElem?_modify] at hw
    obtain ⟨u, hu, heq⟩ := Option.map_eq_some_iff.1 hw
    split at heq
    · rename_i hij
      subst hij
      cases hv.symm.trans hu
      subst heq
      exact ⟨v, hv, hparent v, hsubset, .inr ⟨rfl, rfl, rfl⟩⟩
    · subst heq
      exact ⟨u, hu, rfl, List.Subset.refl _, .inl rfl⟩
  constructor
  · rintro i p ⟨w, hw, hp⟩
    obtain ⟨u, hu, hparent, -⟩ := hcases hw
    exact h.parent_lt ⟨u, hu, hparent ▸ hp⟩
  · intro i w hw
    obtain ⟨u, hu, -, -, rfl | ⟨-, -, rfl⟩⟩ := hcases hw
    · exact h.nodup hu
    · exact hnodup
  · intro i p w w' hw hp hw'
    obtain ⟨u, hu, hparent, -, hself⟩ := hcases hw
    obtain ⟨u', hu', -, hsubset', -⟩ := hcases hw'
    rw [hparent] at hp
    rcases hself with rfl | ⟨-, rfl, rfl⟩
    · exact List.Subset.trans (h.upward hu hp hu') hsubset'
    · exact List.Subset.trans (hupward p u' hp hu') hsubset'

/-- What attaching a named dictionary comes to. -/
theorem IsLayered.attach_spec (h : views.IsLayered) {v : View} (hv : views[i]? = some v)
    (name : String) (d : Dictionary) :
    (∃ j, views.IsTopmostWithout name i j ∧
      views.attach (some name) d i = List.modify views j (View.add (some name) d)) ∨
    ((∀ j w, ReflTransGen views.IsParent i j → views[j]? = some w → name ∈ w.names) ∧
      views.attach (some name) d i = List.modify views i (View.replace name d)) := by
  refine (h.attachTopmost?_spec hv name d).imp (fun ⟨j, htop, heq⟩ => ⟨j, htop, ?_⟩)
    fun ⟨hall, heq⟩ => ⟨hall, ?_⟩
  · simp [attach, heq]
  · simp [attach, heq]

/-- Attaching keeps the invariant. -/
theorem IsLayered.attach (h : views.IsLayered) {v : View} (hv : views[i]? = some v)
    (name : Option String) (d : Dictionary) : IsLayered (views.attach name d i) := by
  cases name with
  | none =>
    have hnames : (v.add none d).names = v.names := by
      rw [View.names_add]
      exact List.append_nil _
    refine h.modify hv (fun _ => rfl) ?_ ?_ fun p w hp hw => ?_ <;> rw [hnames]
    · exact h.nodup hv
    · exact List.Subset.refl _
    · exact h.upward hv hp hw
  | some name =>
    rcases h.attach_spec hv name d with ⟨j, htop, heq⟩ | ⟨-, heq⟩
    · obtain ⟨w, hw, hlacks⟩ := htop.lacks
      rw [heq]
      refine h.modify hw (fun _ => rfl) ?_ ?_ fun p u hp hu => ?_ <;>
        rw [View.names_add, Option.toList_some]
      · refine List.nodup_append.2 ⟨h.nodup hw, by simp, fun other hother added hadded => ?_⟩
        rintro rfl
        exact hlacks (List.mem_singleton.1 hadded ▸ hother)
      · exact List.subset_append_left _ _
      · have hname : name ∈ u.names := htop.above (.single ⟨w, hw, hp⟩) hu
        exact List.append_subset.2 ⟨h.upward hw hp hu, by simpa using hname⟩
    · rw [heq]
      refine h.modify hv (fun _ => rfl) ?_ ?_ fun p w hp hw => ?_ <;> rw [View.names_replace]
      · exact h.nodup hv
      · exact List.Subset.refl _
      · exact h.upward hv hp hw

/-- A view that is added at the end has no dictionaries and keeps the invariant. -/
theorem IsLayered.push (h : views.IsLayered) (template : Template) {parent : Option Nat}
    (hparent : ∀ p ∈ parent, p < views.length) :
    IsLayered (views ++ [⟨template, parent, []⟩]) := by
  have hcases {i : Nat} {w : View} (hw : (views ++ [⟨template, parent, []⟩])[i]? = some w) :
      views[i]? = some w ∨ i = views.length ∧ w = ⟨template, parent, []⟩ := by
    rcases Nat.lt_or_ge i views.length with hi | hi
    · rw [List.getElem?_append_left hi] at hw
      exact .inl hw
    · rw [List.getElem?_append_right hi, List.getElem?_singleton] at hw
      split at hw
      · cases hw
        exact .inr ⟨by omega, rfl⟩
      · cases hw
  constructor
  · rintro i p ⟨w, hw, hp⟩
    rcases hcases hw with hw | ⟨rfl, rfl⟩
    · exact h.parent_lt ⟨w, hw, hp⟩
    · exact hparent p hp
  · intro i w hw
    rcases hcases hw with hw | ⟨-, rfl⟩
    · exact h.nodup hw
    · exact List.nodup_nil
  · intro i p w w' hw hp hw'
    rcases hcases hw with hw | ⟨rfl, rfl⟩
    · have hlt := h.parent_lt ⟨w, hw, hp⟩
      have hi := (List.getElem?_eq_some_iff.1 hw).1
      rw [List.getElem?_append_left (Nat.lt_trans hlt hi)] at hw'
      exact h.upward hw hp hw'
    · exact List.nil_subset _

-- ---------------------------------------------------------------------------
-- What look-ups see
-- ---------------------------------------------------------------------------

theorem IsLayered.mem_chain_iff (h : views.IsLayered) {v : View} (hv : views[i]? = some v)
    {w : View} :
    w ∈ views.chain i ↔ ∃ j, ReflTransGen views.IsParent i j ∧ views[j]? = some w := by
  induction i using Nat.strongRecOn generalizing v with
  | ind i ih =>
    rw [chain_eq hv, h.parent?_eq hv, List.mem_cons]
    have hself : (∃ j, ReflTransGen views.IsParent i j ∧ views[j]? = some w) ↔
        w = v ∨ ∃ p, v.parent = some p ∧
          ∃ j, ReflTransGen views.IsParent p j ∧ views[j]? = some w := by
      constructor
      · rintro ⟨j, haround, hw⟩
        rcases Relation.ReflTransGen.cases_head haround with rfl | ⟨p, ⟨u, hu, hp⟩, haround⟩
        · exact .inl (Option.some.inj (hw.symm.trans hv))
        · cases hv.symm.trans hu
          exact .inr ⟨p, hp, j, haround, hw⟩
      · rintro (rfl | ⟨p, hp, j, haround, hw⟩)
        · exact ⟨i, .refl, hv⟩
        · exact ⟨j, .head ⟨v, hv, hp⟩ haround, hw⟩
    rw [hself]
    refine or_congr_right ?_
    cases hp : v.parent with
    | none => simp
    | some p =>
      have hlt := h.parent_lt ⟨v, hv, hp⟩
      have hi := (List.getElem?_eq_some_iff.1 hv).1
      simpa using ih p hlt (List.getElem?_eq_getElem (Nat.lt_trans hlt hi))

theorem translate_eq_missingDictionary_iff {key : String} :
    views.translate i key (some name) = .missingDictionary ↔
      (views.chain i).flatMap (View.searched (some name)) = [] := by
  unfold translate
  generalize (views.chain i).flatMap (View.searched (some name)) = dictionaries
  cases dictionaries with
  | nil => simp
  | cons d rest =>
    simp only [Option.isSome_some, List.isEmpty_cons, Bool.and_false]
    split <;> simp

theorem translate_eq_found {key text : String} {rest : List Dictionary}
    (h : (views.chain i).flatMap (View.searched (some name)) = d :: rest)
    (htext : d.get? key = some text) : views.translate i key (some name) = .found text := by
  simp [translate, h, htext]

/-- A look-up finds no dictionary of a name just if the outermost view around has none. -/
theorem IsLayered.missingDictionary_iff (h : views.IsLayered) {v w : View}
    (hv : views[i]? = some v) (haround : ReflTransGen views.IsParent i j)
    (hw : views[j]? = some w) (hroot : w.parent = none) (key name : String) :
    views.translate i key (some name) = .missingDictionary ↔ name ∉ w.names := by
  have hlacks : views.translate i key (some name) = .missingDictionary ↔
      ∀ k u, ReflTransGen views.IsParent i k → views[k]? = some u → name ∉ u.names := by
    rw [translate_eq_missingDictionary_iff, List.flatMap_eq_nil_iff]
    constructor
    · intro hall k u hk hu
      exact View.searched_eq_nil_iff.1 (hall u ((h.mem_chain_iff hv).2 ⟨k, hk, hu⟩))
    · intro hall u hu
      obtain ⟨k, hk, hu⟩ := (h.mem_chain_iff hv).1 hu
      exact View.searched_eq_nil_iff.2 (hall k u hk hu)
  rw [hlacks]
  refine ⟨fun hall => hall j w haround hw, fun hname k u hk hu hmem => hname ?_⟩
  have hout : ReflTransGen views.IsParent k j := by
    have hunique : Relator.RightUnique views.IsParent := fun _ _ _ => IsParent.unique
    rcases Relation.ReflTransGen.total_of_right_unique hunique haround hk with hjk | hkj
    · rcases Relation.ReflTransGen.cases_head hjk with rfl | ⟨p, ⟨u', hu', hp⟩, -⟩
      · exact .refl
      · cases hw.symm.trans hu'
        rw [hroot] at hp
        cases hp
    · exact hkj
  exact h.names_subset hout hu hw hmem

/-- Look-ups see of views their parents and the dictionaries that they search. -/
theorem translate_congr {views' : Views} {name : Option String}
    (h : ∀ i : Nat, (views'[i]?).map (fun v : View => (v.parent, v.searched name)) =
      (views[i]?).map fun v : View => (v.parent, v.searched name)) (i : Nat) (key : String) :
    views'.translate i key name = views.translate i key name := by
  have hparent (i : Nat) : views'.parent? i = views.parent? i := by
    have hmap := congrArg (Option.map Prod.fst) (h i)
    simp only [Option.map_map] at hmap
    have hbind (views : Views) : views.parent? i =
        ((views[i]?).map (Prod.fst ∘ fun v : View => (v.parent, v.searched name))).bind
          (Option.filter (· < i)) := by
      rw [parent?]
      cases views[i]? <;> rfl
    rw [hbind, hbind, hmap]
  have hchain : (views'.chain i).flatMap (View.searched name) =
      (views.chain i).flatMap (View.searched name) := by
    induction i using Nat.strongRecOn with
    | ind i ih =>
      have hi := h i
      cases hv : views[i]? with
      | none =>
        rw [hv] at hi
        rw [chain, chain, hv, Option.map_eq_none_iff.1 hi]
      | some v =>
        rw [hv] at hi
        obtain ⟨v', hv', heq⟩ := Option.map_eq_some_iff.1 hi
        rw [chain_eq hv, chain_eq hv', List.flatMap_cons, List.flatMap_cons, hparent i]
        rw [(Prod.mk.inj heq).2]
        cases hp : views.parent? i with
        | none => rfl
        | some p => simp only [ih p (parent?_lt hp)]
  simp only [translate, hchain]

/-- Look-ups of other names see no difference where one view got a dictionary. -/
theorem translate_modify {f : View → View} {v : View} (hv : views[j]? = some v)
    (hparent : (f v).parent = v.parent) {other : String}
    (hsearched : (f v).searched (some other) = v.searched (some other)) (i : Nat) (key : String) :
    translate (List.modify views j f) i key (some other) =
      views.translate i key (some other) := by
  refine translate_congr (fun k => ?_) i key
  rw [List.getElem?_modify]
  by_cases hk : j = k
  · subst hk
    simp [hv, hparent, hsearched]
  · simp [hk]

/-- A dictionary that landed on a view around another one is the first that look-ups of its name
find from there. -/
theorem IsLayered.flatMap_chain_modify (h : views.IsLayered)
    (htop : views.IsTopmostWithout name i j)
    (hafter : IsLayered (List.modify views j (View.add (some name) d))) :
    ∃ rest, (chain (List.modify views j (View.add (some name) d)) i).flatMap
      (View.searched (some name)) = d :: rest := by
  obtain ⟨haround, ⟨w, hw, hlacks⟩, -⟩ := htop
  have hat (k : Nat) : (List.modify views j (View.add (some name) d))[k]? =
      if j = k then some (w.add (some name) d) else views[k]? := by
    rw [List.getElem?_modify]
    by_cases hk : j = k
    · subst hk
      simp [hw]
    · simp [hk]
  generalize List.modify views j (View.add (some name) d) = after at hat hafter
  induction haround using Relation.ReflTransGen.head_induction_on with
  | refl =>
    rw [chain_eq ((hat j).trans (if_pos rfl)), List.flatMap_cons, View.searched_add_self hlacks]
    exact ⟨_, rfl⟩
  | @head i p hstep haround ih =>
    obtain ⟨rest, hrest⟩ := ih
    have hlt := h.parent_lt hstep
    have hle := h.le_of_around haround
    obtain ⟨v, hv, hp⟩ := hstep
    -- a view further in has no dictionary of the name, since the topmost one would have one too
    have hname : name ∉ v.names := fun hmem =>
      hlacks (h.names_subset (.head ⟨v, hv, hp⟩ haround) hv hw hmem)
    have hsame : after[i]? = some v := by rw [hat, if_neg (by omega), hv]
    refine ⟨rest, ?_⟩
    rw [chain_eq hsame, hafter.parent?_eq hsame, hp, List.flatMap_cons,
      View.searched_eq_nil_iff.2 hname]
    exact hrest

-- ---------------------------------------------------------------------------
-- All ways to add views and dictionaries
-- ---------------------------------------------------------------------------

/-- Views that come about by adding views, within none or within one that is there, and by attaching
dictionaries at views that are there. -/
inductive IsReachable : Views → Prop
  | nil : IsReachable []
  | push {views : Views} (h : IsReachable views) (template : Template) {parent : Option Nat}
      (hparent : ∀ p ∈ parent, p < views.length) :
      IsReachable (views ++ [⟨template, parent, []⟩])
  | attach {views : Views} (h : IsReachable views) {i : Nat} (hi : i < views.length)
      (name : Option String) (d : Dictionary) : IsReachable (views.attach name d i)

theorem IsReachable.isLayered (h : views.IsReachable) : views.IsLayered := by
  induction h with
  | nil => exact .nil
  | push _ template hparent ih => exact ih.push template hparent
  | attach _ hi name d ih => exact ih.attach (List.getElem?_eq_getElem hi) name d

/-- No view has two dictionaries of one name, and the names of a view are names of all views around
it. So a look-up finds no dictionary of a name just if the outermost view around has none. -/
theorem IsReachable.names_upward (h : views.IsReachable) :
    (∀ v ∈ views, v.names.Nodup) ∧
    (∀ i j v, views[i]? = some v → TransGen views.IsParent i j →
      ∃ w, views[j]? = some w ∧ v.names ⊆ w.names) ∧
    ∀ i < views.length, ∃ j w, ReflTransGen views.IsParent i j ∧ views[j]? = some w ∧
      w.parent = none ∧ ∀ key name,
        views.translate i key (some name) = .missingDictionary ↔ name ∉ w.names := by
  have hlayered := h.isLayered
  refine ⟨fun v hv => ?_, fun i j v hv haround => ?_, fun i hi => ?_⟩
  · obtain ⟨i, hi⟩ := List.getElem?_of_mem hv
    exact hlayered.nodup hi
  · have hle := hlayered.le_of_around haround.to_reflTransGen
    have hi := (List.getElem?_eq_some_iff.1 hv).1
    have hw := List.getElem?_eq_getElem (Nat.lt_of_le_of_lt hle hi)
    exact ⟨_, hw, hlayered.names_subset haround.to_reflTransGen hv hw⟩
  · have hv := List.getElem?_eq_getElem hi
    obtain ⟨j, w, haround, hw, hroot⟩ := hlayered.exists_outermost hv
    exact ⟨j, w, haround, hw, hroot, hlayered.missingDictionary_iff hv haround hw hroot⟩

/-- A dictionary of one text. -/
def oneText (text : String) : Dictionary := ⟨"d.xml", "fr", [("k", text)], []⟩

/-- A page that includes two parts, the first of which includes another one. -/
def pageAndParts : Views :=
  let view (path : String) (parent : Option Nat) : View := ⟨⟨path, "x:", default, []⟩, parent, []⟩
  [view "page.xml" none, view "part.xml" (some 0), view "deep.xml" (some 1),
    view "other.xml" (some 0)]

theorem isReachable_pageAndParts : pageAndParts.IsReachable :=
  .push (.push (.push (.push .nil _ (by simp)) _ (by simp)) _ (by simp)) _ (by simp)

/-- Dictionaries of one name are attached from the innermost view, three times. -/
def attachedThrice : Views :=
  ((pageAndParts.attach (some "main") (oneText "one") 2).attach (some "main")
    (oneText "two") 2).attach (some "main") (oneText "three") 2

theorem isReachable_attachedThrice : attachedThrice.IsReachable :=
  ((isReachable_pageAndParts.attach (by decide +kernel) _ _).attach (by decide +kernel) _ _).attach
    (by decide +kernel) _ _

theorem names_upward_attachedThrice :
    attachedThrice.IsReachable ∧
      attachedThrice.map View.names = [["main"], ["main"], ["main"], []] ∧
      (∀ v ∈ attachedThrice, v.names.Nodup) ∧
      (∀ i j v, attachedThrice[i]? = some v → TransGen attachedThrice.IsParent i j →
        ∃ w, attachedThrice[j]? = some w ∧ v.names ⊆ w.names) ∧
      ∀ i < attachedThrice.length, ∃ j w, ReflTransGen attachedThrice.IsParent i j ∧
        attachedThrice[j]? = some w ∧ w.parent = none ∧ ∀ key name,
          attachedThrice.translate i key (some name) = .missingDictionary ↔ name ∉ w.names :=
  ⟨isReachable_attachedThrice, by decide +kernel,
    IsReachable.names_upward isReachable_attachedThrice⟩

/-- What becomes of the views where a named dictionary is attached at a view. -/
structure IsAttached (views : Views) (i : Nat) (v : View) (name : String) (d : Dictionary)
    (after : Views) : Prop where
  /-- It is added to the topmost view around that has none of its name, or takes the place of the
  one on the view itself. All other views stay as they are. -/
  lands : (∃ j w, views.IsTopmostWithout name i j ∧ views[j]? = some w ∧
      after = views.set j { w with dictionaries := w.dictionaries ++ [(some name, d)] }) ∨
    ((∀ j w, ReflTransGen views.IsParent i j → views[j]? = some w → name ∈ w.names) ∧
      ∃ before old rest, v.dictionaries = before ++ (some name, old) :: rest ∧
        after = views.set i { v with dictionaries := before ++ (some name, d) :: rest })
  found {key text : String} (htext : d.get? key = some text) :
    after.translate i key (some name) = .found text
  others (k : Nat) (key : String) {other : String} (hother : other ≠ name) :
    after.translate k key (some other) = views.translate k key (some other)

/-- A named dictionary lands on one view, from where look-ups of its name find it at once, and those
of other names find what they found before. -/
theorem IsReachable.attach_named (h : views.IsReachable) {v : View} (hv : views[i]? = some v)
    (name : String) (d : Dictionary) :
    views.IsAttached i v name d (views.attach (some name) d i) := by
  have hlayered := h.isLayered
  have hafter := hlayered.attach hv (some name) d
  have hset {j : Nat} {w : View} (hw : views[j]? = some w) (f : View → View) :
      List.modify views j f = views.set j (f w) := by
    rw [List.modify_eq_set_getElem?, hw]
    rfl
  rcases hlayered.attach_spec hv name d with ⟨j, htop, heq⟩ | ⟨hall, heq⟩
  · obtain ⟨w, hw, -⟩ := id htop.lacks
    rw [heq] at hafter ⊢
    constructor
    case lands => exact .inl ⟨j, w, htop, hw, hset hw _⟩
    case found =>
      intro key text htext
      obtain ⟨rest, hrest⟩ := hlayered.flatMap_chain_modify htop hafter
      exact translate_eq_found hrest htext
    case others =>
      exact fun k key other hother =>
        translate_modify hw rfl (View.searched_add_of_ne hother) k key
  · have hname := hall i v .refl hv
    obtain ⟨⟨rest, hfirst⟩, hothers⟩ := View.searched_replace hname d
    obtain ⟨before, old, others, hdictionaries, -, hreplace⟩ :=
      View.exists_replaceFirst_eq hname d
    rw [heq] at hafter ⊢
    constructor
    case lands =>
      refine .inr ⟨hall, before, old, others, hdictionaries, ?_⟩
      rw [hset hv, View.replace, hreplace]
    case found =>
      intro key text htext
      have hself : (List.modify views i (View.replace name d))[i]? = some (v.replace name d) := by
        rw [List.getElem?_modify_eq, hv]
        rfl
      have hsearched := congrArg (List.flatMap (View.searched (some name))) (chain_eq hself)
      rw [List.flatMap_cons, hfirst, List.cons_append] at hsearched
      exact translate_eq_found hsearched htext
    case others =>
      exact fun k key other hother => translate_modify hv rfl (hothers other hother) k key

theorem attach_named_attachedThrice :
    attachedThrice.IsReachable ∧
      (attachedThrice.attach (some "main") (oneText "four") 3).map View.names =
        [["main"], ["main"], ["main"], ["main"]] ∧
      ∃ v, attachedThrice[3]? = some v ∧
        attachedThrice.IsAttached 3 v "main" (oneText "four")
          (attachedThrice.attach (some "main") (oneText "four") 3) := by
  have hlength : 3 < attachedThrice.length := by decide +kernel
  have hv := List.getElem?_eq_getElem hlength
  exact ⟨isReachable_attachedThrice, by decide +kernel, _, hv,
    isReachable_attachedThrice.attach_named hv "main" (oneText "four")⟩

end Views

end XmlTemplate
