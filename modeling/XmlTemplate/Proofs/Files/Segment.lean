import XmlTemplate.Files

/-!
# Segments of paths

How paths are put together from names and taken apart at their slashes, and when places are the same
or within each other.
-/

namespace XmlTemplate

namespace Text

variable {p : Char → Bool} {text before rest : List Char}

theorem splitAt_ne_nil (p : Char → Bool) (text : List Char) : splitAt p text ≠ [] := by
  cases text with
  | nil => nofun
  | cons c text =>
    rw [splitAt]
    split
    · nofun
    · split <;> nofun

theorem splitAt_append {c : Char} (hc : p c) (before after : List Char) :
    splitAt p (before ++ c :: after) = splitAt p before ++ splitAt p after := by
  induction before with
  | nil => simp [splitAt, hc]
  | cons d before ih =>
    rw [List.cons_append, splitAt, splitAt, ih]
    split
    · rfl
    · cases h : splitAt p before with
      | nil => exact absurd h (splitAt_ne_nil p before)
      | cons piece pieces => rfl

theorem splitAt_eq_singleton (h : ∀ c ∈ text, p c = false) : splitAt p text = [text] := by
  induction text with
  | nil => rfl
  | cons c text ih =>
    obtain ⟨hc, htext⟩ := List.forall_mem_cons.1 h
    simp [splitAt, hc, ih htext]

theorem splitAt_eq_nil_singleton (h : splitAt p text = [[]]) : text = [] := by
  cases text with
  | nil => rfl
  | cons c text =>
    rw [splitAt] at h
    split at h
    · exact absurd (List.cons.inj h).2 (splitAt_ne_nil p text)
    · split at h <;> cases h

theorem of_cutAtLast?_eq_none (h : cutAtLast? p text = none) : ∀ d ∈ text, p d = false := by
  induction text with
  | nil => nofun
  | cons d text ih =>
    rw [cutAtLast?] at h
    split at h
    · cases h
    · rename_i hcut
      split at h
      · cases h
      · rename_i hd
        exact List.forall_mem_cons.2 ⟨Bool.eq_false_iff.2 hd, ih hcut⟩

theorem of_cutAtLast? (h : cutAtLast? p text = some (before, rest)) :
    ∃ c, p c ∧ text = before ++ c :: rest ∧ ∀ d ∈ rest, p d = false := by
  induction text generalizing before with
  | nil => cases h
  | cons d text ih =>
    rw [cutAtLast?] at h
    split at h
    · rename_i hcut
      cases h
      obtain ⟨c, hc, rfl, hrest⟩ := ih hcut
      exact ⟨c, hc, rfl, hrest⟩
    · rename_i hcut
      split at h
      · rename_i hd
        cases h
        exact ⟨d, hd, rfl, of_cutAtLast?_eq_none hcut⟩
      · cases h

end Text

namespace Files

/-- A name that can be a segment: not empty, without slashes, and neither `.` nor `..`. -/
structure IsName (name : String) : Prop where
  slash : '/' ∉ name.toList
  isIdle : Path.isIdle name.toList = false
  isClimb : Path.isClimb name.toList = false

theorem IsName.splitAt {name : String} (h : IsName name) :
    Text.splitAt (· == '/') name.toList = [name.toList] :=
  Text.splitAt_eq_singleton fun c hc => by
    rw [beq_eq_false_iff_ne]
    rintro rfl
    exact h.slash hc

theorem IsName.ne_nil {name : String} (h : IsName name) : name.toList ≠ [] := by
  intro heq
  have := h.isIdle
  rw [heq] at this
  cases this

-- ---------------------------------------------------------------------------
-- Starts
-- ---------------------------------------------------------------------------

/-- A name at the end of a path that ends with a slash. -/
theorem start?_append {path outer name : String} (h : IsName name)
    (hpath : path.toList = outer.toList ++ '/' :: name.toList) (houter : outer ≠ "") :
    start? path = (start? outer).map fun (place, segments) =>
      (place, segments ++ [name.toList]) := by
  have hsplit : Text.splitAt (· == '/') path.toList =
      Text.splitAt (· == '/') outer.toList ++ [name.toList] := by
    rw [hpath, Text.splitAt_append (by rfl), h.splitAt]
  unfold start?
  rw [hsplit]
  have hne : Text.splitAt (· == '/') outer.toList ≠ [[]] := fun hnil =>
    houter (String.toList_eq_nil_iff.1 (Text.splitAt_eq_nil_singleton hnil))
  cases hsegments : Text.splitAt (· == '/') outer.toList with
  | nil => exact absurd hsegments (Text.splitAt_ne_nil _ _)
  | cons first rest =>
    cases first with
    | nil =>
      cases rest with
      | nil => exact absurd hsegments hne
      | cons second rest => rfl
    | cons c first => rfl

/-- Where paths with the same segments in front of their names start. -/
theorem exists_start?_concat (segments : List (List Char)) :
    ∃ place rest, rest ⊆ segments ∧ ∀ path name, name ≠ [] →
      Text.splitAt (· == '/') (String.toList path) = segments ++ [name] →
        start? path = some (place, rest ++ [name]) := by
  cases segments with
  | nil =>
    refine ⟨"", [], fun _ h => h, fun path name hname hsplit => ?_⟩
    rw [start?, hsplit]
    cases name with
    | nil => exact absurd rfl hname
    | cons c name => rfl
  | cons segment segments =>
    cases segment with
    | nil =>
      refine ⟨"/", segments, List.subset_cons_self .., fun path name hname hsplit => ?_⟩
      rw [start?, hsplit]
      cases segments <;> rfl
    | cons c segment =>
      refine ⟨"", (c :: segment) :: segments, fun _ h => h, fun path name hname hsplit => ?_⟩
      rw [start?, hsplit]
      rfl

/-- Every path has a last segment, behind the segments of the folder that it is written in. -/
theorem exists_start?_parentPath {path place : String} {segments : List (List Char)}
    (h : start? path = some (place, segments)) :
    start? (parentPath path) = none ∨ ∃ before last, segments = before ++ [last] ∧
      (start? (parentPath path) = some (place, before) ∨
        before = [] ∧ start? (parentPath path) = some (place, [[]])) := by
  cases hcut : Text.cutAtLast? (· == '/') path.toList with
  | none =>
    left
    simp [parentPath, hcut]
    rfl
  | some parts =>
    obtain ⟨before, last⟩ := parts
    obtain ⟨c, hc, htext, hlast⟩ := Text.of_cutAtLast? hcut
    have hsplit : Text.splitAt (· == '/') path.toList =
        Text.splitAt (· == '/') before ++ [last] := by
      rw [htext, Text.splitAt_append (p := (· == '/')) hc,
        Text.splitAt_eq_singleton hlast]
    right
    unfold start? at h
    rw [hsplit] at h
    cases before with
    | nil =>
      cases h
      refine ⟨[], last, rfl, .inr ⟨rfl, ?_⟩⟩
      simp [parentPath, hcut]
      rfl
    | cons d before =>
      have hparent : parentPath path = String.ofList (d :: before) := by
        simp [parentPath, hcut]
      have hne : Text.splitAt (· == '/') (d :: before) ≠ [[]] := fun hnil =>
        nomatch Text.splitAt_eq_nil_singleton hnil
      unfold start?
      rw [hparent, String.toList_ofList]
      cases hsegments : Text.splitAt (· == '/') (d :: before) with
      | nil => exact absurd hsegments (Text.splitAt_ne_nil _ _)
      | cons first rest =>
        rw [hsegments] at h hne
        cases first with
        | nil =>
          cases rest with
          | nil => exact absurd rfl hne
          | cons second rest =>
            cases h
            exact ⟨_, last, rfl, .inl rfl⟩
        | cons e first =>
          cases h
          exact ⟨_, last, rfl, .inl rfl⟩

-- ---------------------------------------------------------------------------
-- Places
-- ---------------------------------------------------------------------------

/-- What the places in a folder start with. -/
def lead (place : String) : List Char :=
  if place = "" ∨ place = "/" then place.toList else place.toList ++ ['/']

theorem toList_child (place name : String) :
    (child place name).toList = lead place ++ name.toList := by
  unfold child lead
  simp only [Bool.or_eq_true, beq_iff_eq]
  split <;> simp

theorem length_le_child (place name : String) :
    place.toList.length ≤ (child place name).toList.length := by
  rw [toList_child, lead]
  split <;> simp only [List.length_append] <;> omega

theorem length_lt_child (place : String) {name : String} (h : IsName name) :
    place.toList.length < (child place name).toList.length := by
  have hpositive := List.length_pos_iff.2 h.ne_nil
  rw [toList_child, lead]
  split <;> simp only [List.length_append] <;> omega

/-- The place is the folder or within it. -/
def IsWithin (folder x : String) : Prop := x = folder ∨ (below? folder x).isSome

instance (folder x : String) : Decidable (IsWithin folder x) :=
  inferInstanceAs (Decidable (x = folder ∨ (below? folder x).isSome))

theorem isSome_below?_iff {folder x : String} (h : folder ≠ "") :
    (below? folder x).isSome ↔ lead folder <+: x.toList := by
  have hchild : (child folder "").toList = lead folder := by simp [toList_child]
  simp only [below?, beq_iff_eq, h, if_false, hchild, Option.isSome_map, Option.isSome_iff_exists,
    Text.after?_eq_some_iff]
  exact ⟨fun ⟨rest, hrest⟩ => ⟨rest, hrest.symm⟩, fun ⟨rest, hrest⟩ => ⟨rest, hrest.symm⟩⟩

theorem IsWithin.length_le {folder x : String} (h : IsWithin folder x) (hne : folder ≠ "") :
    folder.toList.length ≤ x.toList.length := by
  rcases h with rfl | h
  · exact Nat.le_refl _
  · have hlead := ((isSome_below?_iff hne).1 h).length_le
    rw [lead] at hlead
    split at hlead
    · exact hlead
    · rw [List.length_append] at hlead
      omega

/-- A text that is put together from a lead and a name without slashes is so in one way only. -/
theorem lead_append_inj {place place' : String} {name name' : List Char} (h : '/' ∉ name)
    (h' : '/' ∉ name') (heq : lead place ++ name = lead place' ++ name') :
    lead place = lead place' ∧ name = name' := by
  have hend (place : String) : lead place = [] ∨ ∃ before, lead place = before ++ ['/'] := by
    unfold lead
    split
    · rename_i htop
      rcases htop with rfl | rfl
      · exact .inl rfl
      · exact .inr ⟨[], rfl⟩
    · exact .inr ⟨_, rfl⟩
  -- what one lead has more than the other would be part of a name and end with a slash
  have hsame {place place' : String} {name more : List Char} (hname : '/' ∉ name)
      (hmore : lead place' = lead place ++ more) (hpart : ∃ rest, name = more ++ rest) :
      more = [] := by
    obtain ⟨rest, rfl⟩ := hpart
    rcases List.eq_nil_or_concat more with hnil | ⟨front, last, rfl⟩
    · exact hnil
    · exfalso
      rcases hend place' with hnil | ⟨before, hbefore⟩
      · simp [hnil] at hmore
      · rw [hbefore, List.concat_eq_append, ← List.append_assoc] at hmore
        obtain ⟨-, hlast⟩ := List.append_inj' hmore rfl
        cases hlast
        simp at hname
  rcases List.append_eq_append_iff.1 heq with ⟨more, hmore, hname⟩ | ⟨more, hmore, hname⟩
  · cases hsame h hmore ⟨_, hname⟩
    exact ⟨by simpa using hmore.symm, by simpa using hname⟩
  · cases hsame h' hmore ⟨_, hname⟩
    exact ⟨by simpa using hmore, by simpa using hname.symm⟩

theorem child_inj {place name name' : String} (h : '/' ∉ name.toList) (h' : '/' ∉ name'.toList)
    (heq : child place name = child place name') : name = name' := by
  have hlist := congrArg String.toList heq
  rw [toList_child, toList_child] at hlist
  exact String.toList_injective (lead_append_inj h h' hlist).2

/-- A place below another one is not a top. -/
theorem child_ne_top (place : String) {name : String} (h : IsName name) :
    child place name ≠ "" ∧ child place name ≠ "/" := by
  constructor
  · intro heq
    have hlist := congrArg String.toList heq
    rw [toList_child] at hlist
    exact h.ne_nil (List.append_eq_nil_iff.1 hlist).2
  · intro heq
    have hlist := congrArg String.toList heq
    rw [toList_child] at hlist
    rcases List.append_eq_singleton_iff.1 hlist with ⟨-, hname⟩ | ⟨-, hname⟩
    · exact h.slash (hname ▸ List.mem_singleton_self _)
    · exact h.ne_nil hname

end Files

end XmlTemplate
