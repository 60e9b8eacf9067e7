import XmlTemplate.Proofs.Files.Way

/-!
# Trees that agree at some places

What is read at a path, and whether a file can be written there, depends on the places that lie on
its way and on no others: two trees that agree at these places give the same answers, and still
agree when the same file was written in both.
-/

namespace XmlTemplate.Files

variable {P : String → Prop} {files files' : Files} {place path x : String} {way : Way}

/-- The same is at the places in both trees. -/
def Agree (P : String → Prop) (files files' : Files) : Prop := ∀ x, P x → files.at? x = files'.at? x

theorem Agree.symm (h : Agree P files files') : Agree P files' files := fun x hx => (h x hx).symm

theorem Agree.isFolderAt_eq (h : Agree P files files') (hx : P x) :
    files.isFolderAt x = files'.isFolderAt x := by
  unfold isFolderAt
  rw [h x hx]

/-- The place lies on the way of a path. -/
def IsOn (path x : String) : Prop := ∃ way, way? path = some way ∧ x ∈ way.places

-- ---------------------------------------------------------------------------
-- Reading
-- ---------------------------------------------------------------------------

theorem Agree.isOpen (h : Agree P files files') (hway : ∀ x ∈ way.places, P x)
    (hopen : way.IsOpen files) : way.IsOpen files' :=
  fun x hx => h.isFolderAt_eq (hway x (List.mem_cons_of_mem _ hx)) ▸ hopen x hx

theorem Agree.place?_eq (h : Agree P files files') (hpath : ∀ x, IsOn path x → P x) :
    files.place? path = files'.place? path := by
  have himp {files files' : Files} (h : Agree P files files') (place : String) :
      files.place? path = some place → files'.place? path = some place := by
    rw [place?_eq_some_iff, place?_eq_some_iff]
    rintro ⟨way, hway, hopen, hgoal⟩
    exact ⟨way, hway, h.isOpen (fun x hx => hpath x ⟨way, hway, hx⟩) hopen, hgoal⟩
  exact Option.ext fun place => ⟨himp h place, himp h.symm place⟩

/-- Files are read alike. -/
theorem Agree.file?_eq (h : Agree P files files') (hpath : ∀ x, IsOn path x → P x) :
    files.file? path = files'.file? path := by
  have hnode : files.node? path = files'.node? path := by
    unfold node?
    rw [← h.place?_eq hpath]
    cases hplace : files.place? path with
    | none => rfl
    | some place =>
      obtain ⟨way, hway, -, rfl⟩ := place?_eq_some_iff.1 hplace
      exact h _ (hpath _ ⟨way, hway, List.mem_cons_self ..⟩)
  unfold file?
  rw [hnode]

-- ---------------------------------------------------------------------------
-- Writing
-- ---------------------------------------------------------------------------

/-- Both steps fail, or both succeed and leave trees that agree. -/
def AgreeAfter (P : String → Prop) : Option Files → Option Files → Prop :=
  Option.Rel (Agree P)

theorem AgreeAfter.bind {left right : Option Files} {step step' : Files → Option Files}
    (h : AgreeAfter P left right)
    (hstep : ∀ files files', Agree P files files' → AgreeAfter P (step files) (step' files')) :
    AgreeAfter P (left.bind step) (right.bind step') := by
  cases h with
  | none => exact .none
  | some hagree => exact hstep _ _ hagree

theorem AgreeAfter.getD {left right : Option Files} (h : AgreeAfter P left right)
    (hbefore : Agree P files files') : Agree P (left.getD files) (right.getD files') := by
  cases h with
  | none => exact hbefore
  | some hagree => exact hagree

theorem Agree.put (h : Agree P files files') (hx : P place) (node : FileNode)
    (hfolder : ¬ files.isFolderAt place) :
    Agree P ⟨files.nodes.put place node⟩ ⟨files'.nodes.put place node⟩ := by
  intro x hP
  rw [at?_put node hfolder, at?_put node (h.isFolderAt_eq hx ▸ hfolder), h x hP]

theorem Agree.addFolder (h : Agree P files files') (hx : P place) :
    Agree P (files.addFolder place) (files'.addFolder place) := by
  unfold Files.addFolder
  rw [← h place hx]
  split
  · exact h
  · rename_i hnone
    refine h.put hx _ fun hfolder => hnone ?_
    rw [isFolderAt_iff.1 hfolder]
    rfl

theorem Agree.follow_addFolder {rest : List (List Char)} (h : Agree P files files')
    (hway : wayFrom? place rest = some way) (hP : ∀ x ∈ way.places, P x) :
    Option.Rel (fun p q => Agree P p.1 q.1 ∧ p.2 = way.goal ∧ q.2 = way.goal)
      (follow Files.addFolder files place rest) (follow Files.addFolder files' place rest) := by
  induction rest generalizing files files' place way with
  | nil =>
    cases hway
    exact .some ⟨h, rfl, rfl⟩
  | cons segment rest ih =>
    obtain ⟨next, inner, hnext, hinner, rfl⟩ := wayFrom?_cons_eq_some_iff.1 hway
    have hplace : P place := hP _ (List.mem_cons_of_mem _ (List.mem_cons_self ..))
    have hplaces : ∀ x ∈ inner.places, P x := fun x hx => hP x (by
      rcases List.mem_cons.1 hx with rfl | hx
      · exact List.mem_cons_self ..
      · exact List.mem_cons_of_mem _ (List.mem_cons_of_mem _ hx))
    have hrest {left right : Files} (hagree : Agree P left right) := ih hagree hinner hplaces
    rw [follow_cons, follow_cons, ← h.isFolderAt_eq hplace, hnext]
    split
    · refine hrest ?_
      split
      · exact h
      · exact h.addFolder (hplaces _ (start_mem_of_wayFrom? hinner))
    · exact .none

/-- The way to a file goes by the folder that it is written in, if that path leads anywhere. -/
theorem exists_way?_parentPath (hway : way? path = some way) :
    start? (parentPath path) = none ∨ ∃ outer, way? (parentPath path) = some outer := by
  obtain ⟨⟨place, segments⟩, hstart, hfrom⟩ := Option.bind_eq_some_iff.1 hway
  rcases exists_start?_parentPath hstart with hnone | ⟨before, last, rfl, hparent⟩
  · exact .inl hnone
  · right
    simp only at hfrom
    rw [wayFrom?_append] at hfrom
    obtain ⟨front, hfront, -⟩ := Option.bind_eq_some_iff.1 hfrom
    rcases hparent with hparent | ⟨-, hparent⟩
    · exact ⟨front, Option.bind_eq_some_iff.2 ⟨_, hparent, hfront⟩⟩
    · exact ⟨⟨[place], place⟩, Option.bind_eq_some_iff.2 ⟨_, hparent, rfl⟩⟩

/-- The folder that a file is written in is made alike. -/
theorem Agree.makeFolders? (h : Agree P files files') (hpath : ∀ x, IsOn path x → P x)
    (hway : way? path = some way) :
    AgreeAfter P (files.makeFolders? (parentPath path))
      (files'.makeFolders? (parentPath path)) := by
  rcases exists_way?_parentPath hway with hnone | ⟨outer, houter⟩
  · simp only [Files.makeFolders?, hnone]
    exact .some h
  · have hP : ∀ x ∈ outer.places, P x := fun x hx =>
      hpath x ⟨way, hway, List.mem_cons_of_mem _ (way?_parentPath_subset houter hway hx)⟩
    obtain ⟨⟨place, segments⟩, hstart, hfrom⟩ := Option.bind_eq_some_iff.1 houter
    have hfollow := h.follow_addFolder hfrom hP
    simp only [Files.makeFolders?, hstart]
    generalize follow Files.addFolder files place segments = left at hfollow ⊢
    generalize follow Files.addFolder files' place segments = right at hfollow ⊢
    cases hfollow with
    | none => exact .none
    | some hmade =>
      obtain ⟨hmade, hgoal, hgoal'⟩ := hmade
      simp only [Option.bind_some, hgoal, hgoal',
        ← hmade.isFolderAt_eq (hP outer.goal (List.mem_cons_self ..))]
      split
      · exact .some hmade
      · exact .none

/-- Files are written alike. -/
theorem Agree.write? (h : Agree P files files') (hpath : ∀ x, IsOn path x → P x)
    (content : Content) (modified : Nat) :
    AgreeAfter P (files.write? path content modified) (files'.write? path content modified) := by
  cases hway : way? path with
  | none =>
    have hnone (files : Files) : files.write? path content modified = none := by
      refine Option.eq_none_iff_forall_not_mem.2 fun written hwrite => ?_
      obtain ⟨way, hsome⟩ := exists_way?_of_write? hwrite
      rw [hway] at hsome
      cases hsome
    rw [hnone, hnone]
    exact .none
  | some way =>
    refine (h.makeFolders? hpath hway).bind fun made made' hmade => ?_
    rw [← hmade.place?_eq hpath]
    cases hplace : made.place? path with
    | none => exact .none
    | some place =>
      obtain ⟨way, hway, -, rfl⟩ := place?_eq_some_iff.1 hplace
      have hgoal : P way.goal := hpath _ ⟨way, hway, List.mem_cons_self ..⟩
      rw [Option.bind_some, Option.bind_some, ← hmade.isFolderAt_eq hgoal]
      split
      · exact .none
      · exact .some (hmade.put hgoal _ ‹_›)

end XmlTemplate.Files
