import XmlTemplate.Proofs.Files.Way
import XmlTemplate.Proofs.Path.Depth

/-!
# Ways below a root

A path of segments that lead down, seen from a root, goes on where the way of the root ends: from
folder to folder, one for each segment. It never leaves the root again.
-/

namespace XmlTemplate.Files

variable {place x root path : String} {steps : List (List Char)} {way outer : Way}

/-- The place that some segments lead down to. -/
def descend (place : String) (steps : List (List Char)) : String :=
  steps.foldl (fun place step => child place (String.ofList step)) place

theorem prefix_descend (place : String) (steps : List (List Char)) :
    place.toList <+: (descend place steps).toList := by
  induction steps generalizing place with
  | nil => exact List.prefix_rfl
  | cons step rest ih =>
    have hchild : place.toList <+: (child place (String.ofList step)).toList := by
      rw [toList_child, lead]
      split
      · exact List.prefix_append _ _
      · rw [List.append_assoc]
        exact List.prefix_append _ _
    exact hchild.trans (ih _)

/-- The way lies below the end of the other one, where it leads down by these segments. -/
structure IsBelow (outer : Way) (steps : List (List Char)) (way : Way) : Prop where
  goal : way.goal = descend outer.goal steps
  through : ∀ x ∈ way.through, x ∈ outer.places ∨ ∃ k, x = descend outer.goal (steps.take k)

/-- Segments that lead down are followed from folder to folder. -/
theorem exists_wayFrom?_of_isStep (h : ∀ s ∈ steps, Path.IsStep s) (place : String) :
    ∃ way, wayFrom? place steps = some way ∧ way.goal = descend place steps ∧
      ∀ x ∈ way.through, ∃ k, x = descend place (steps.take k) := by
  induction steps generalizing place with
  | nil => exact ⟨⟨[], place⟩, rfl, rfl, nofun⟩
  | cons step rest ih =>
    obtain ⟨hstep, hrest⟩ := List.forall_mem_cons.1 h
    have hnext : next? place step = some (child place (String.ofList step)) := by
      simp only [next?, hstep.isIdle, hstep.isClimb, Bool.false_eq_true, if_false]
    obtain ⟨inner, hinner, hgoal, hthrough⟩ := ih hrest (child place (String.ofList step))
    refine ⟨⟨place :: inner.through, inner.goal⟩,
      wayFrom?_cons_eq_some_iff.2 ⟨_, inner, hnext, hinner, rfl⟩, hgoal, fun x hx => ?_⟩
    rcases List.mem_cons.1 hx with rfl | hx
    · exact ⟨0, rfl⟩
    · obtain ⟨k, rfl⟩ := hthrough x hx
      exact ⟨k + 1, rfl⟩

/-- What a path of such segments is cut into at its slashes. -/
theorem splitAt_of_isMadeOf (h : Path.IsMadeOf steps path) :
    Text.splitAt (· == '/') path.toList = if steps = [] then [[]] else steps := by
  rw [h.eq, String.toList_ofList]
  split
  · rename_i hnil
    rw [hnil]
    rfl
  · rename_i hne
    refine Text.splitAt_intercalate rfl hne fun s hs c hc => ?_
    have hseparator := (h.isStep s hs).isSeparator c hc
    exact (Bool.or_eq_false_iff.1 hseparator).1

theorem isAbsolute_eq_false (h : Path.IsMadeOf steps path) : Path.isAbsolute path = false := by
  have hsplit := splitAt_of_isMadeOf h
  cases hpath : path.toList with
  | nil =>
    rw [Path.isAbsolute, hpath]
  | cons c rest =>
    have hc : c ≠ '/' := by
      rintro rfl
      have hcut : Text.splitAt (· == '/') ('/' :: rest) = [] :: Text.splitAt (· == '/') rest := rfl
      rw [hpath, hcut] at hsplit
      split at hsplit
      · exact Text.splitAt_ne_nil _ _ (List.cons.inj hsplit).2
      · have hmem : [] ∈ steps := hsplit ▸ List.mem_cons_self ..
        exact Bool.false_ne_true ((h.isStep [] hmem).isIdle.symm.trans rfl)
    rw [Path.isAbsolute, hpath]
    split
    · rename_i heq
      cases heq
      exact absurd rfl hc
    · rfl

/-- A path that goes on behind another one starts like it. -/
theorem exists_start?_of_splitAt {text text' : String} {pieces : List (List Char)}
    (hne : text ≠ "")
    (h : Text.splitAt (· == '/') text'.toList = Text.splitAt (· == '/') text.toList ++ pieces) :
    ∃ place before, start? text = some (place, before) ∧
      start? text' = some (place, before ++ pieces) := by
  unfold start?
  rw [h]
  have hpieces : Text.splitAt (· == '/') text.toList ≠ [[]] := fun hnil =>
    hne (String.toList_eq_nil_iff.1 (Text.splitAt_eq_nil_singleton hnil))
  match hsplit : Text.splitAt (· == '/') text.toList with
  | [] => exact absurd hsplit (Text.splitAt_ne_nil _ _)
  | [[]] => exact absurd hsplit hpieces
  | [] :: second :: rest => exact ⟨"/", second :: rest, rfl, rfl⟩
  | (c :: first) :: rest => exact ⟨"", (c :: first) :: rest, rfl, rfl⟩

/-- A path seen from a root starts like the root and goes on behind its segments. The last segment
of a root that ends with a slash is empty. -/
theorem exists_start?_within (hroot : root ≠ "") (h : Path.isAbsolute path = false) :
    ∃ place before,
      (start? root = some (place, before) ∨ start? root = some (place, before ++ [[]])) ∧
        start? (Path.within root path) =
          some (place, before ++ Text.splitAt (· == '/') path.toList) := by
  unfold Path.within
  rw [h, Bool.false_or, if_neg (by simpa using hroot)]
  split
  · rename_i hlast
    obtain ⟨front, hfront⟩ := List.getLast?_eq_some_iff.1 (eq_of_beq hlast)
    have hroot : Text.splitAt (· == '/') root.toList = Text.splitAt (· == '/') front ++ [[]] := by
      rw [hfront]
      exact Text.splitAt_append rfl front []
    have hwithin : Text.splitAt (· == '/') (root ++ path).toList =
        Text.splitAt (· == '/') front ++ Text.splitAt (· == '/') path.toList := by
      rw [String.toList_append, hfront, List.append_assoc]
      exact Text.splitAt_append rfl front path.toList
    by_cases hnil : front = []
    · refine ⟨"/", [], .inr ?_, ?_⟩
      · rw [start?, hroot, hnil]
        rfl
      · rw [start?, hwithin, hnil]
        cases hpieces : Text.splitAt (· == '/') path.toList with
        | nil => exact absurd hpieces (Text.splitAt_ne_nil _ _)
        | cons piece pieces => rfl
    · have hne : String.ofList front ≠ "" := fun heq =>
        hnil (by simpa using congrArg String.toList heq)
      rw [← String.toList_ofList (l := front)] at hroot hwithin
      obtain ⟨place, before, hfront, hstart⟩ := exists_start?_of_splitAt hne hroot
      obtain ⟨_, _, hfront', hstart'⟩ := exists_start?_of_splitAt hne hwithin
      cases hfront.symm.trans hfront'
      exact ⟨place, before, .inr hstart, hstart'⟩
  · have hwithin : Text.splitAt (· == '/') (root ++ "/" ++ path).toList =
        Text.splitAt (· == '/') root.toList ++ Text.splitAt (· == '/') path.toList := by
      rw [String.toList_append, String.toList_append, List.append_assoc]
      exact Text.splitAt_append rfl root.toList path.toList
    obtain ⟨place, before, hbefore, hafter⟩ := exists_start?_of_splitAt hroot hwithin
    exact ⟨place, before, .inl hbefore, hafter⟩

/-- The way of a root is that of its segments, without an empty one at the end. -/
theorem exists_wayFrom?_of_start? {before : List (List Char)} (hroot : way? root = some outer)
    (hstart : start? root = some (place, before) ∨ start? root = some (place, before ++ [[]])) :
    ∃ front, wayFrom? place before = some front ∧ front.goal = outer.goal ∧
      front.places ⊆ outer.places := by
  obtain ⟨start, hroot, hfrom⟩ := Option.bind_eq_some_iff.1 hroot
  rcases hstart with hstart | hstart
  · cases hroot.symm.trans hstart
    exact ⟨outer, hfrom, rfl, List.Subset.refl _⟩
  · cases hroot.symm.trans hstart
    simp only [wayFrom?_append] at hfrom
    obtain ⟨front, hfront, hfrom⟩ := Option.bind_eq_some_iff.1 hfrom
    obtain ⟨last, hlast, rfl⟩ := Option.map_eq_some_iff.1 hfrom
    cases hlast
    refine ⟨front, hfront, rfl, fun x hx => ?_⟩
    rcases List.mem_cons.1 hx with rfl | hx
    · exact List.mem_cons_self ..
    · exact List.mem_cons_of_mem _ (List.mem_append_left _ hx)

/-- A path that leads down from a root stays below it. -/
theorem exists_isBelow (hroot : way? root = some outer) (h : Path.IsMadeOf steps path) :
    ∃ way, way? (Path.within root path) = some way ∧ IsBelow outer steps way := by
  have hne : root ≠ "" := by
    rintro rfl
    cases hroot
  obtain ⟨place, before, hstart, hwithin⟩ := exists_start?_within hne (isAbsolute_eq_false h)
  obtain ⟨front, hfront, hgoal, hplaces⟩ := exists_wayFrom?_of_start? hroot hstart
  have hinner : ∃ inner, wayFrom? front.goal (Text.splitAt (· == '/') path.toList) = some inner ∧
      inner.goal = descend front.goal steps ∧
        ∀ x ∈ inner.through, ∃ k, x = descend front.goal (steps.take k) := by
    rw [splitAt_of_isMadeOf h]
    split
    · rename_i hnil
      refine ⟨⟨[front.goal], front.goal⟩, rfl, by rw [hnil]; rfl, fun x hx => ⟨0, ?_⟩⟩
      exact List.mem_singleton.1 hx
    · exact exists_wayFrom?_of_isStep h.isStep front.goal
  obtain ⟨inner, hinner, hdescend, hthrough⟩ := hinner
  refine ⟨⟨front.through ++ inner.through, inner.goal⟩, ?_, ?_⟩
  · refine Option.bind_eq_some_iff.2 ⟨_, hwithin, ?_⟩
    simp only [wayFrom?_append, hfront, hinner, Option.bind_some, Option.map_some]
  · refine ⟨hgoal ▸ hdescend, fun x hx => ?_⟩
    rcases List.mem_append.1 hx with hx | hx
    · exact .inl (hplaces (List.mem_cons_of_mem _ hx))
    · exact .inr (hgoal ▸ hthrough x hx)

-- ---------------------------------------------------------------------------
-- Folders apart
-- ---------------------------------------------------------------------------

/-- What lies below a place is in no folder that lies neither around the place nor below it. -/
theorem not_isWithin_of_extends {folder : String} (hfolder : folder ≠ "" ∧ folder ≠ "/")
    (hunder : place.toList <+: x.toList) (hplace : ¬ IsWithin folder place)
    (hapart : ¬ place.toList <+: folder.toList) : ¬ IsWithin folder x := by
  rintro (rfl | hbelow)
  · exact hapart hunder
  · rw [isSome_below?_iff hfolder.1] at hbelow
    have hnot : ¬ lead folder <+: place.toList := fun h =>
      hplace (.inr ((isSome_below?_iff hfolder.1).2 h))
    have hlead := (List.prefix_or_prefix_of_prefix hbelow hunder).resolve_left hnot
    rw [lead, if_neg (not_or.2 hfolder)] at hlead hnot
    rcases List.prefix_concat_iff.1 hlead with heq | hle
    · exact hnot (heq ▸ List.prefix_rfl)
    · exact hapart hle

/-- A path that leads down from a root goes through no folder apart from the root. -/
theorem not_isWithin_of_isMadeOf {folder : String} (hfolder : folder ≠ "" ∧ folder ≠ "/")
    (hroot : way? root = some outer) (h : Path.IsMadeOf steps path)
    (houter : ∀ x ∈ outer.places, ¬ IsWithin folder x)
    (hapart : ¬ outer.goal.toList <+: folder.toList) {way : Way}
    (hway : way? (Path.within root path) = some way) : ∀ x ∈ way.places, ¬ IsWithin folder x := by
  obtain ⟨_, hway', hbelow⟩ := exists_isBelow hroot h
  cases hway.symm.trans hway'
  have hdescend (steps : List (List Char)) : ¬ IsWithin folder (descend outer.goal steps) :=
    not_isWithin_of_extends hfolder (prefix_descend _ _) (houter _ (List.mem_cons_self ..)) hapart
  intro x hx
  rcases List.mem_cons.1 hx with rfl | hthrough
  · exact hbelow.goal ▸ hdescend _
  · rcases hbelow.through x hthrough with hmem | ⟨k, rfl⟩
    · exact houter x hmem
    · exact hdescend _

end XmlTemplate.Files
