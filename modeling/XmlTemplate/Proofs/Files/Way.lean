import XmlTemplate.Proofs.Files.Segment

/-!
# Ways through a tree of files

Where a path leads to, and through which places, is told by its segments alone; the tree only
decides whether all of these places are folders. Writing adds folders on the way and one file at its
end, and removing takes nodes away. No other place is touched.
-/

namespace XmlTemplate

theorem Table.get?_filter (p : String → Bool) (key : String) (t : Table α) :
    Table.get? key (t.filter fun field => p field.1) =
      if p key then Table.get? key t else none := by
  induction t with
  | nil => simp [get?]
  | cons field rest ih =>
    obtain ⟨k, a⟩ := field
    by_cases hk : k = key
    · subst hk
      by_cases hp : p k <;> simp_all [get?]
    · by_cases hp : p k <;> simp_all [get?]

namespace Files

-- ---------------------------------------------------------------------------
-- Nodes
-- ---------------------------------------------------------------------------

variable {files files' : Files} {place x : String}

theorem isFolderAt_iff : files.isFolderAt place ↔ files.at? place = some .folder := by
  unfold isFolderAt
  split <;> simp_all

theorem at?_empty {x : String} (h : x ≠ "" ∧ x ≠ "/") : Files.empty.at? x = none := by
  rw [at?, if_neg (by simpa using h)]
  rfl

/-- A node that is put where no folder is is there, and all others stay. -/
theorem at?_put (node : FileNode) (h : ¬ files.isFolderAt place) (x : String) :
    at? ⟨files.nodes.put place node⟩ x = if x = place then some node else files.at? x := by
  unfold at?
  split
  · rename_i htop
    rw [if_neg]
    rintro rfl
    simp [isFolderAt_iff, at?, htop] at h
  · split
    · rename_i heq
      rw [heq, Table.get?_put_self]
    · rename_i hne
      exact Table.get?_put_of_ne hne node files.nodes

/-- Only nodes that are taken out are missing. The folders at the top cannot be. -/
theorem at?_filter (files : Files) (keep : String → Bool) (h : keep "" ∧ keep "/") (x : String) :
    at? ⟨files.nodes.filter fun field => keep field.1⟩ x =
      if keep x then files.at? x else none := by
  unfold at?
  split
  · rename_i htop
    have hx : x = "" ∨ x = "/" := by simpa using htop
    rcases hx with rfl | rfl
    · rw [if_pos h.1]
    · rw [if_pos h.2]
  · exact Table.get?_filter keep x files.nodes

-- ---------------------------------------------------------------------------
-- Ways
-- ---------------------------------------------------------------------------

/-- A way to a place. -/
structure Way where
  /-- The places that must be folders. -/
  through : List String
  goal : String

/-- All places of a way. -/
def Way.places (way : Way) : List String := way.goal :: way.through

/-- Where a segment leads to from a place; none above the top. -/
def next? (place : String) (segment : List Char) : Option String :=
  if Path.isIdle segment then some place
  else if Path.isClimb segment then parent? place
  else some (child place (String.ofList segment))

/-- The way of some segments from a place. -/
def wayFrom? (place : String) : List (List Char) → Option Way
  | [] => some ⟨[], place⟩
  | segment :: rest => (next? place segment).bind fun next =>
    (wayFrom? next rest).map fun way => ⟨place :: way.through, way.goal⟩

/-- The way of a path. -/
def way? (path : String) : Option Way := (start? path).bind fun (place, rest) => wayFrom? place rest

/-- All places that a way goes through are folders. -/
def Way.IsOpen (way : Way) (files : Files) : Prop := ∀ x ∈ way.through, files.isFolderAt x

theorem Way.isOpen_cons {way : Way} :
    IsOpen ⟨place :: way.through, way.goal⟩ files ↔ files.isFolderAt place ∧ way.IsOpen files :=
  List.forall_mem_cons

theorem wayFrom?_append (place : String) (before after : List (List Char)) :
    wayFrom? place (before ++ after) =
      (wayFrom? place before).bind fun outer =>
        (wayFrom? outer.goal after).map fun inner =>
          ⟨outer.through ++ inner.through, inner.goal⟩ := by
  induction before generalizing place with
  | nil =>
    simp only [List.nil_append, wayFrom?, Option.bind_some]
    cases wayFrom? place after <;> rfl
  | cons segment before ih =>
    simp only [List.cons_append, wayFrom?]
    cases next? place segment with
    | none => rfl
    | some next =>
      simp only [Option.bind_some, ih]
      cases wayFrom? next before with
      | none => rfl
      | some outer => cases h : wayFrom? outer.goal after <;> simp [h]

theorem wayFrom?_cons_eq_some_iff {segment : List Char} {rest : List (List Char)} {way : Way} :
    wayFrom? place (segment :: rest) = some way ↔ ∃ next inner, next? place segment = some next ∧
      wayFrom? next rest = some inner ∧ way = ⟨place :: inner.through, inner.goal⟩ := by
  simp only [wayFrom?, Option.bind_eq_some_iff, Option.map_eq_some_iff]
  constructor
  · rintro ⟨next, hnext, inner, hinner, rfl⟩
    exact ⟨next, inner, hnext, hinner, rfl⟩
  · rintro ⟨next, inner, hnext, hinner, rfl⟩
    exact ⟨next, hnext, inner, hinner, rfl⟩

/-- A name leads into a folder. -/
theorem wayFrom?_name {name : String} (h : IsName name) (place : String) :
    wayFrom? place [name.toList] = some ⟨[place], child place name⟩ := by
  simp only [wayFrom?, next?, h.isIdle, h.isClimb, Bool.false_eq_true, if_false,
    String.ofList_toList]
  rfl

theorem start_mem_of_wayFrom? {rest : List (List Char)} {way : Way}
    (h : wayFrom? place rest = some way) : place ∈ way.goal :: way.through := by
  cases rest with
  | nil =>
    cases h
    exact List.mem_cons_self ..
  | cons segment rest =>
    obtain ⟨next, inner, -, -, rfl⟩ := wayFrom?_cons_eq_some_iff.1 h
    exact List.mem_cons_of_mem _ (List.mem_cons_self ..)

/-- A way that never turns back leads further with every step. -/
theorem exists_wayFrom? {rest : List (List Char)} (h : ∀ s ∈ rest, Path.isClimb s = false)
    (place : String) : ∃ way, wayFrom? place rest = some way ∧
      ∀ x ∈ way.places, x.toList.length ≤ way.goal.toList.length := by
  induction rest generalizing place with
  | nil => exact ⟨⟨[], place⟩, rfl, fun x hx => List.mem_singleton.1 hx ▸ Nat.le_refl _⟩
  | cons segment rest ih =>
    obtain ⟨hsegment, hrest⟩ := List.forall_mem_cons.1 h
    have hnext : ∃ next, next? place segment = some next ∧
        place.toList.length ≤ next.toList.length := by
      rw [next?, hsegment]
      split
      · exact ⟨place, rfl, Nat.le_refl _⟩
      · exact ⟨_, rfl, length_le_child place _⟩
    obtain ⟨next, hnext, hlength⟩ := hnext
    obtain ⟨way, hway, hshort⟩ := ih hrest next
    refine ⟨⟨place :: way.through, way.goal⟩,
      wayFrom?_cons_eq_some_iff.2 ⟨next, way, hnext, hway, rfl⟩, fun x hx => ?_⟩
    rcases List.mem_cons.1 hx with rfl | hx
    · exact Nat.le_refl _
    · rcases List.mem_cons.1 hx with rfl | hx
      · exact Nat.le_trans hlength (hshort next (start_mem_of_wayFrom? hway))
      · exact hshort x (List.mem_cons_of_mem _ hx)

theorem follow_cons (make : Files → String → Files) (files : Files) (place : String)
    (segment : List Char) (rest : List (List Char)) :
    follow make files place (segment :: rest) =
      if files.isFolderAt place then (next? place segment).bind fun next =>
        follow make (if Path.isIdle segment || Path.isClimb segment then files
          else make files next) next rest
      else none := by
  rw [follow, next?]
  split
  · by_cases hidle : Path.isIdle segment
    · simp [hidle]
    · by_cases hclimb : Path.isClimb segment
      · simp only [hidle, hclimb, if_false, if_true, Bool.false_eq_true, Bool.or_true]
        cases parent? place <;> rfl
      · simp [hidle, hclimb]
  · rfl

/-- A path is followed if its way is open. -/
theorem map_follow_eq_some_iff {rest : List (List Char)} :
    (follow (fun files _ => files) files place rest).map (·.2) = some x ↔
      ∃ way, wayFrom? place rest = some way ∧ way.IsOpen files ∧ way.goal = x := by
  induction rest generalizing place with
  | nil => simp [follow, wayFrom?, Way.IsOpen]
  | cons segment rest ih =>
    simp only [follow_cons, ite_self]
    constructor
    · intro h
      split at h
      · rename_i hfolder
        rw [Option.map_bind] at h
        obtain ⟨next, hnext, h⟩ := Option.bind_eq_some_iff.1 h
        obtain ⟨inner, hinner, hopen, hgoal⟩ := ih.1 h
        exact ⟨_, wayFrom?_cons_eq_some_iff.2 ⟨next, inner, hnext, hinner, rfl⟩,
          Way.isOpen_cons.2 ⟨hfolder, hopen⟩, hgoal⟩
      · cases h
    · rintro ⟨way, hway, hopen, hgoal⟩
      obtain ⟨next, inner, hnext, hinner, rfl⟩ := wayFrom?_cons_eq_some_iff.1 hway
      obtain ⟨hfolder, hopen⟩ := Way.isOpen_cons.1 hopen
      rw [if_pos hfolder, hnext, Option.bind_some]
      exact ih.2 ⟨inner, hinner, hopen, hgoal⟩

theorem place?_eq_some_iff {path : String} :
    files.place? path = some x ↔ ∃ way, way? path = some way ∧ way.IsOpen files ∧ way.goal = x := by
  unfold place? way?
  cases start? path with
  | none => simp
  | some start => exact map_follow_eq_some_iff

-- ---------------------------------------------------------------------------
-- Adding folders
-- ---------------------------------------------------------------------------

/-- Nothing has changed but that folders were added, at some of the given places. -/
def AddsFolders (places : List String) (files files' : Files) : Prop :=
  ∀ x, files'.at? x = files.at? x ∨
    files.at? x = none ∧ files'.at? x = some .folder ∧ x ∈ places

theorem AddsFolders.refl (places : List String) (files : Files) : AddsFolders places files files :=
  fun _ => .inl rfl

theorem AddsFolders.trans {places : List String} {files files' files'' : Files}
    (h : AddsFolders places files files') (k : AddsFolders places files' files'') :
    AddsFolders places files files'' := by
  intro x
  rcases h x with h | ⟨hnone, h, hx⟩
  · rcases k x with k | ⟨hnone, k⟩
    · exact .inl (k.trans h)
    · exact .inr ⟨h ▸ hnone, k⟩
  · rcases k x with k | ⟨hnone', -⟩
    · exact .inr ⟨hnone, k.trans h, hx⟩
    · rw [h] at hnone'
      cases hnone'

theorem AddsFolders.mono {places places' : List String} (h : AddsFolders places files files')
    (hsub : places ⊆ places') : AddsFolders places' files files' :=
  fun x => (h x).imp_right fun ⟨hnone, hfolder, hx⟩ => ⟨hnone, hfolder, hsub hx⟩

theorem AddsFolders.isFolderAt {places : List String} (h : AddsFolders places files files')
    (hfolder : files.isFolderAt x) : files'.isFolderAt x := by
  rw [isFolderAt_iff] at hfolder ⊢
  rcases h x with h | ⟨-, h, -⟩
  · exact h.trans hfolder
  · exact h

theorem addsFolders_addFolder (files : Files) (place : String) :
    AddsFolders [place] files (files.addFolder place) := by
  unfold addFolder
  split
  · exact .refl _ _
  · rename_i hnone
    intro x
    have hnone : files.at? place = none := by simpa using hnone
    have hnot : ¬ files.isFolderAt place := by simp [isFolderAt_iff, hnone]
    rw [at?_put _ hnot]
    split
    · rename_i heq
      exact .inr ⟨heq ▸ hnone, rfl, heq ▸ List.mem_cons_self ..⟩
    · exact .inl rfl

/-- Following a path by making folders opens its way. -/
theorem of_follow_addFolder {rest : List (List Char)}
    (h : follow addFolder files place rest = some (files', x)) :
    ∃ way, wayFrom? place rest = some way ∧ way.IsOpen files' ∧ way.goal = x ∧
      AddsFolders (way.goal :: way.through) files files' := by
  induction rest generalizing files place with
  | nil =>
    cases h
    exact ⟨_, rfl, nofun, rfl, .refl _ _⟩
  | cons segment rest ih =>
    rw [follow_cons] at h
    split at h
    · rename_i hfolder
      obtain ⟨next, hnext, h⟩ := Option.bind_eq_some_iff.1 h
      obtain ⟨way, hway, hopen, hgoal, hadds⟩ := ih h
      have hmade : AddsFolders (way.goal :: way.through) files
          (if Path.isIdle segment || Path.isClimb segment then files
            else files.addFolder next) := by
        split
        · exact .refl _ _
        · refine (addsFolders_addFolder files next).mono ?_
          simpa using start_mem_of_wayFrom? hway
      have hall := hmade.trans hadds
      refine ⟨_, wayFrom?_cons_eq_some_iff.2 ⟨next, way, hnext, hway, rfl⟩,
        Way.isOpen_cons.2 ⟨hall.isFolderAt hfolder, hopen⟩, hgoal, hall.mono ?_⟩
      exact List.cons_subset_cons _ (List.subset_cons_self ..)
    · cases h

-- ---------------------------------------------------------------------------
-- Writing
-- ---------------------------------------------------------------------------

/-- The folder that a file is written in lies on the way to the file. -/
theorem way?_parentPath_subset {path : String} {outer way : Way}
    (houter : way? (parentPath path) = some outer) (hway : way? path = some way) :
    outer.places ⊆ way.through := by
  obtain ⟨⟨place, segments⟩, hstart, hfrom⟩ := Option.bind_eq_some_iff.1 hway
  obtain ⟨⟨place', before'⟩, hstart', hfrom'⟩ := Option.bind_eq_some_iff.1 houter
  rcases exists_start?_parentPath hstart with hnone | ⟨before, last, rfl, hparent⟩
  · rw [hnone] at hstart'
    cases hstart'
  · simp only at hfrom
    rw [wayFrom?_append] at hfrom
    obtain ⟨front, hfront, hfrom⟩ := Option.bind_eq_some_iff.1 hfrom
    obtain ⟨inner, hinner, rfl⟩ := Option.map_eq_some_iff.1 hfrom
    obtain ⟨_, _, -, -, rfl⟩ := wayFrom?_cons_eq_some_iff.1 hinner
    rcases hparent with hparent | ⟨rfl, hparent⟩
    · cases hparent.symm.trans hstart'
      cases hfront.symm.trans hfrom'
      intro x hx
      rcases List.mem_cons.1 hx with rfl | hx
      · exact List.mem_append_right _ (List.mem_cons_self ..)
      · exact List.mem_append_left _ hx
    · cases hparent.symm.trans hstart'
      cases hfront
      cases hfrom'
      intro x hx
      have hx : x = place := by simpa [Way.places] using hx
      exact hx ▸ List.mem_cons_self ..

theorem of_makeFolders? {path : String} {way : Way} (h : files.makeFolders? path = some files')
    (hway : way? path = some way) : AddsFolders way.places files files' ∧
      way.IsOpen files' ∧ files'.isFolderAt way.goal := by
  obtain ⟨⟨place, segments⟩, hstart, hfrom⟩ := Option.bind_eq_some_iff.1 hway
  simp only [makeFolders?, hstart] at h
  obtain ⟨⟨middle, goal⟩, hfollow, h⟩ := Option.bind_eq_some_iff.1 h
  obtain ⟨way', hway', hopen, rfl, hadds⟩ := of_follow_addFolder hfollow
  cases hfrom.symm.trans hway'
  simp only at h
  split at h
  · cases h
    exact ⟨hadds, hopen, ‹_›⟩
  · cases h

theorem of_makeFolders?_of_way?_eq_none {path : String}
    (h : files.makeFolders? path = some files') (hway : way? path = none) : files' = files := by
  unfold makeFolders? at h
  split at h
  · cases h
    rfl
  · rename_i place segments hstart
    obtain ⟨⟨middle, goal⟩, hfollow, -⟩ := Option.bind_eq_some_iff.1 h
    obtain ⟨way, hfrom, -⟩ := of_follow_addFolder hfollow
    simp [way?, hstart, hfrom] at hway

/-- A file that is written comes to the end of an open way, where no folder may be. -/
theorem of_write? {path : String} {content : Content} {modified : Nat}
    (h : files.write? path content modified = some files') :
    ∃ middle way, way? path = some way ∧ way.IsOpen middle ∧
      AddsFolders way.through files middle ∧ ¬ middle.isFolderAt way.goal ∧
        ∀ x, files'.at? x =
          if x = way.goal then some (.file content modified) else middle.at? x := by
  obtain ⟨middle, hmake, h⟩ := Option.bind_eq_some_iff.1 h
  obtain ⟨place, hplace, h⟩ := Option.bind_eq_some_iff.1 h
  obtain ⟨way, hway, hopen, rfl⟩ := place?_eq_some_iff.1 hplace
  have hadds : AddsFolders way.through files middle := by
    cases houter : way? (parentPath path) with
    | none => exact of_makeFolders?_of_way?_eq_none hmake houter ▸ .refl _ _
    | some outer =>
      exact (of_makeFolders? hmake houter).1.mono (way?_parentPath_subset houter hway)
  split at h
  · cases h
  · rename_i hfolder
    cases h
    exact ⟨middle, way, hway, hopen, hadds, hfolder, at?_put _ hfolder⟩

section

variable {path : String} {content : Content} {modified : Nat}
  (h : files.write? path content modified = some files')

include h

theorem isFolderAt_of_write? (hfolder : files.isFolderAt x) : files'.isFolderAt x := by
  obtain ⟨middle, way, -, -, hadds, hgoal, hat⟩ := of_write? h
  have hmiddle := hadds.isFolderAt hfolder
  have hne : x ≠ way.goal := by
    rintro rfl
    exact hgoal hmiddle
  rw [isFolderAt_iff] at hmiddle ⊢
  rw [hat, if_neg hne, hmiddle]

/-- Nothing is touched but what lies on the way. -/
theorem at?_of_write? {way : Way} (hway : way? path = some way) (hx : x ∉ way.places) :
    files'.at? x = files.at? x := by
  obtain ⟨middle, _, hway', -, hadds, -, hat⟩ := of_write? h
  cases hway.symm.trans hway'
  obtain ⟨hne, hnot⟩ := not_or.1 fun hmem => hx (List.mem_cons.2 hmem)
  rw [hat, if_neg hne]
  rcases hadds x with hsame | ⟨-, -, hmem⟩
  · exact hsame
  · exact absurd hmem hnot

/-- Nothing that was there is lost but at the goal. -/
theorem at?_of_write?_of_some {way : Way} (hway : way? path = some way) (hx : x ≠ way.goal)
    {node : FileNode} (hat : files.at? x = some node) : files'.at? x = some node := by
  obtain ⟨middle, _, hway', -, hadds, -, hwritten⟩ := of_write? h
  cases hway.symm.trans hway'
  rw [hwritten, if_neg hx]
  rcases hadds x with hsame | ⟨hnone, -⟩
  · exact hsame.trans hat
  · cases hnone.symm.trans hat

/-- A file that is there after writing was there before, or is the one that was written. -/
theorem file_of_write? {other : Content} {time : Nat}
    (hat : files'.at? x = some (.file other time)) :
    files.at? x = some (.file other time) ∨ other = content := by
  obtain ⟨middle, way, -, -, hadds, -, hwritten⟩ := of_write? h
  rw [hwritten] at hat
  split at hat
  · cases hat
    exact .inr rfl
  · rcases hadds x with hsame | ⟨-, hfolder, -⟩
    · exact .inl (hsame ▸ hat)
    · cases hfolder.symm.trans hat

theorem at?_goal_of_write? {way : Way} (hway : way? path = some way) :
    files'.at? way.goal = some (.file content modified) := by
  obtain ⟨_, _, hway', -, -, -, hat⟩ := of_write? h
  cases hway.symm.trans hway'
  rw [hat, if_pos rfl]

theorem isOpen_of_write? {way : Way} (hway : way? path = some way) : way.IsOpen files' := by
  obtain ⟨middle, _, hway', hopen, -, hgoal, hat⟩ := of_write? h
  cases hway.symm.trans hway'
  intro y hy
  have hmiddle := hopen y hy
  have hne : y ≠ way.goal := by
    rintro rfl
    exact hgoal hmiddle
  rw [isFolderAt_iff] at hmiddle ⊢
  rw [hat, if_neg hne, hmiddle]

theorem exists_way?_of_write? : ∃ way, way? path = some way := by
  obtain ⟨_, way, hway, -⟩ := of_write? h
  exact ⟨way, hway⟩

end

-- ---------------------------------------------------------------------------
-- Removing
-- ---------------------------------------------------------------------------

/-- Removing a file takes away that one node. -/
theorem of_remove? {path : String} (h : files.remove? path = some files') :
    ∃ way content modified, way? path = some way ∧
      files.at? way.goal = some (.file content modified) ∧
        ∀ x, files'.at? x = if x = way.goal then none else files.at? x := by
  obtain ⟨place, hplace, h⟩ := Option.bind_eq_some_iff.1 h
  obtain ⟨way, hway, hopen, rfl⟩ := place?_eq_some_iff.1 hplace
  split at h
  · rename_i content modified hat
    cases h
    refine ⟨way, content, modified, hway, hat, fun x => ?_⟩
    have htop : (way.goal == "" || way.goal == "/") = false := by
      cases htop : way.goal == "" || way.goal == "/" with
      | false => rfl
      | true => simp [at?, htop] at hat
    have hkeep : ("" != way.goal) = true ∧ ("/" != way.goal) = true := by
      simp only [Bool.or_eq_false_iff, beq_eq_false_iff_ne] at htop
      exact ⟨bne_iff_ne.2 (Ne.symm htop.1), bne_iff_ne.2 (Ne.symm htop.2)⟩
    rw [Table.erase, at?_filter files (· != way.goal) hkeep]
    by_cases hx : x = way.goal <;> simp [hx]
  · cases h

theorem isFolderAt_of_remove? {path : String} (h : files.remove? path = some files')
    (hfolder : files.isFolderAt x) : files'.isFolderAt x := by
  obtain ⟨way, content, modified, -, hgoal, hat⟩ := of_remove? h
  rw [isFolderAt_iff] at hfolder ⊢
  have hne : x ≠ way.goal := by
    rintro rfl
    rw [hgoal] at hfolder
    cases hfolder
  rw [hat, if_neg hne, hfolder]

/-- Removing a folder takes away the nodes within it. -/
theorem of_removeFolder? {path : String} {way : Way} (h : files.removeFolder? path = some files')
    (hway : way? path = some way) (hgoal : way.goal ≠ "" ∧ way.goal ≠ "/") :
    files.isFolderAt way.goal ∧
      (∀ x, IsWithin way.goal x → files'.at? x = none) ∧
        ∀ x, ¬ IsWithin way.goal x → files'.at? x = files.at? x := by
  obtain ⟨place, hplace, h⟩ := Option.bind_eq_some_iff.1 h
  obtain ⟨_, hway', hopen, rfl⟩ := place?_eq_some_iff.1 hplace
  cases hway.symm.trans hway'
  split at h
  · rename_i hfolder
    cases h
    have hbelow (x : String) (hlength : x.toList.length ≤ 1) : (below? way.goal x).isNone := by
      rw [Option.isNone_iff_eq_none, ← Option.not_isSome_iff_eq_none, isSome_below?_iff hgoal.1]
      intro hlead
      have hle := hlead.length_le
      have hpos : 0 < way.goal.toList.length :=
        List.length_pos_iff.2 fun hnil => hgoal.1 (String.toList_eq_nil_iff.1 hnil)
      rw [lead, if_neg (not_or.2 hgoal), List.length_append, List.length_singleton] at hle
      omega
    have hkeep : (("" != way.goal && (below? way.goal "").isNone) = true) ∧
        ("/" != way.goal && (below? way.goal "/").isNone) = true := by
      simp [hbelow, Ne.symm hgoal.1, Ne.symm hgoal.2]
    have hat := at?_filter files
      (fun other => other != way.goal && (below? way.goal other).isNone) hkeep
    refine ⟨hfolder, fun x hx => ?_, fun x hx => ?_⟩
    · refine (hat x).trans (if_neg ?_)
      rcases hx with rfl | hx
      · simp
      · simp [Option.isNone_iff_eq_none, Option.isSome_iff_ne_none.1 hx]
    · refine (hat x).trans (if_pos ?_)
      obtain ⟨hne, hnone⟩ := not_or.1 hx
      simp [hne, Option.not_isSome_iff_eq_none.1 hnone]
  · cases h

-- ---------------------------------------------------------------------------
-- Reading
-- ---------------------------------------------------------------------------

theorem file?_eq_some_iff {path : String} {content : Content} {modified : Nat} :
    files.file? path = some (content, modified) ↔ ∃ way, way? path = some way ∧
      way.IsOpen files ∧ files.at? way.goal = some (.file content modified) := by
  have hnode : files.file? path = some (content, modified) ↔
      files.node? path = some (.file content modified) := by
    unfold file?
    split <;> simp_all
  rw [hnode, node?, Option.bind_eq_some_iff]
  constructor
  · rintro ⟨place, hplace, hat⟩
    obtain ⟨way, hway, hopen, rfl⟩ := place?_eq_some_iff.1 hplace
    exact ⟨way, hway, hopen, hat⟩
  · rintro ⟨way, hway, hopen, hat⟩
    exact ⟨way.goal, place?_eq_some_iff.2 ⟨way, hway, hopen, rfl⟩, hat⟩

end Files

end XmlTemplate
