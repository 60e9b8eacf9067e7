import XmlTemplate.Cache
import XmlTemplate.Proofs.Files.Way

/-!
# Places of a cache

The entries of a kind are files in a folder of their own. A tree of files in which every entry can
be reached stays one, whatever is written or removed: writing touches one entry at most, and
removing the folder of a kind takes all entries of this kind and none of the other.
-/

namespace XmlTemplate

open Files

namespace Cache

theorem isName_folder (kind : Kind) : IsName kind.folder := by
  cases kind <;> exact ⟨by decide, by decide, by decide⟩

theorem isName_entry {name : String} (h : '/' ∉ name.toList) : IsName (name ++ ".json") := by
  have hlength : 5 ≤ (name ++ ".json").toList.length := by simp
  have hne {text : List Char} (htext : text.length < 5) : (name ++ ".json").toList ≠ text := by
    rintro heq
    rw [heq] at hlength
    omega
  refine ⟨by simp [h], ?_, ?_⟩
  · rw [Path.isIdle, Bool.or_eq_false_iff, beq_eq_false_iff_ne, beq_eq_false_iff_ne]
    exact ⟨hne (by decide), hne (by decide)⟩
  · rw [Path.isClimb, beq_eq_false_iff_ne]
    exact hne (by decide)

/-- The file names of sources are names. -/
theorem slash_notMem_digest (source : String) : '/' ∉ (digest source).toList := by
  have hdigit (n : Nat) (hn : n < 16) : Nat.digitChar n ≠ '/' := by
    decide +revert
  simp only [digest, String.toList_ofList, List.mem_map, not_exists, not_and]
  exact fun i _ => hdigit _ (Nat.mod_lt _ (by decide))

/-- The place of the folder of a kind. -/
def kindPlace (base : String) (kind : Kind) : String := child base kind.folder

/-- The place of the entry of a source. -/
def entryPlace (cache : Cache) (base : String) (kind : Kind) (key : String) : String :=
  child (kindPlace base kind) (cache.entryName key ++ ".json")

/-- Where a cache lies: the way to its folders goes through the places of `trail`, which are outside
of them. Names of entries are names of files. -/
structure LiesAt (cache : Cache) (trail : List String) (base : String) : Prop where
  entryName (key : String) : '/' ∉ (cache.entryName key).toList
  way (kind : Kind) : way? (cache.kindPath kind) = some ⟨trail, kindPlace base kind⟩
  outside (kind : Kind) : ∀ x ∈ trail, ¬ IsWithin (kindPlace base kind) x

variable {cache : Cache} {trail : List String} {base : String} {kind kind' : Kind}
  {key key' : String}

-- ---------------------------------------------------------------------------
-- Different places
-- ---------------------------------------------------------------------------

theorem kindPlace_ne_top (base : String) (kind : Kind) :
    kindPlace base kind ≠ "" ∧ kindPlace base kind ≠ "/" :=
  child_ne_top base (isName_folder kind)

theorem lead_kindPlace (base : String) (kind : Kind) :
    lead (kindPlace base kind) = lead base ++ (kind.folder.toList ++ ['/']) := by
  rw [lead, if_neg (not_or.2 (kindPlace_ne_top base kind)), kindPlace, toList_child,
    List.append_assoc]

theorem toList_entryPlace (cache : Cache) (base : String) (kind : Kind) (key : String) :
    (cache.entryPlace base kind key).toList =
      lead base ++ (kind.folder.toList ++ '/' :: (cache.entryName key ++ ".json").toList) := by
  rw [entryPlace, toList_child, lead_kindPlace]
  simp

/-- Names of entries end with the extension of JSON. -/
theorem entryPlace_ne (cache : Cache) (base : String) (kind : Kind) (source place : String)
    (h : place.toList.getLast? ≠ some 'n') : cache.entryPlace base kind source ≠ place := by
  rintro rfl
  apply h
  rw [toList_entryPlace, String.toList_append]
  simp [List.getLast?_append, List.getLast?_cons]

theorem isWithin_entryPlace (cache : Cache) (base : String) (kind : Kind) (key : String) :
    IsWithin (kindPlace base kind) (cache.entryPlace base kind key) := by
  refine .inr ((isSome_below?_iff (kindPlace_ne_top base kind).1).2 ?_)
  rw [entryPlace, toList_child]
  exact List.prefix_append _ _

/-- The folders of the two kinds start with different letters. -/
theorem not_isWithin_of_ne (hne : kind ≠ kind') {x : String} (more : List Char)
    (hx : x.toList = lead base ++ (kind'.folder.toList ++ more)) :
    ¬ IsWithin (kindPlace base kind) x := by
  rintro (rfl | hbelow)
  · rw [kindPlace, toList_child, List.append_cancel_left_eq] at hx
    cases kind <;> cases kind' <;> simp_all [Kind.folder]
  · rw [isSome_below?_iff (kindPlace_ne_top base kind).1, lead_kindPlace, hx,
      List.prefix_append_right_inj] at hbelow
    cases kind <;> cases kind' <;> simp_all [Kind.folder]

theorem not_isWithin_kindPlace (hne : kind ≠ kind') :
    ¬ IsWithin (kindPlace base kind) (kindPlace base kind') :=
  not_isWithin_of_ne hne [] (by rw [kindPlace, toList_child, List.append_nil])

theorem not_isWithin_entryPlace (hne : kind ≠ kind') :
    ¬ IsWithin (kindPlace base kind) (cache.entryPlace base kind' key) :=
  not_isWithin_of_ne hne _ (toList_entryPlace cache base kind' key)

theorem entryPlace_ne_kindPlace :
    cache.entryPlace base kind key ≠ kindPlace base kind' := by
  intro heq
  by_cases hne : kind' = kind
  · subst hne
    have hlist := congrArg String.toList heq
    rw [toList_entryPlace, kindPlace, toList_child] at hlist
    have hlength := congrArg List.length hlist
    simp at hlength
  · have hwithin : IsWithin (kindPlace base kind') (cache.entryPlace base kind key) := .inl heq
    exact not_isWithin_entryPlace hne hwithin

-- ---------------------------------------------------------------------------
-- Paths
-- ---------------------------------------------------------------------------

theorem isAbsolute_eq_false {name : String} (h : '/' ∉ name.toList) :
    Path.isAbsolute name = false := by
  unfold Path.isAbsolute
  split
  · rename_i heq
    simp [heq] at h
  · rfl

theorem toList_within {folder name : String} (hname : IsName name) (hne : folder ≠ "")
    (hlast : folder.toList.getLast? ≠ some '/') :
    (Path.within folder name).toList = folder.toList ++ '/' :: name.toList := by
  simp [Path.within, isAbsolute_eq_false hname.slash, hne, hlast]

/-- The path of the folder of a kind ends with the name of this folder. -/
theorem kindPath_end (cache : Cache) (kind : Kind) :
    cache.kindPath kind ≠ "" ∧ (cache.kindPath kind).toList.getLast? ≠ some '/' := by
  have hfolder := isAbsolute_eq_false (isName_folder kind).slash
  have hend : ∃ before, (cache.kindPath kind).toList = before ++ kind.folder.toList := by
    unfold kindPath Path.within
    rw [hfolder]
    split
    · exact ⟨[], rfl⟩
    · split
      · exact ⟨cache.folder.toList, String.toList_append⟩
      · exact ⟨cache.folder.toList ++ ['/'], by simp⟩
  obtain ⟨before, hbefore⟩ := hend
  constructor
  · intro heq
    rw [heq] at hbefore
    cases kind <;> simp [Kind.folder] at hbefore
  · rw [hbefore]
    cases kind <;> simp [Kind.folder]

namespace LiesAt

variable (h : cache.LiesAt trail base)

include h

theorem isName (key : String) : IsName (cache.entryName key ++ ".json") :=
  isName_entry (h.entryName key)

theorem entryPlace_inj (heq : cache.entryPlace base kind key = cache.entryPlace base kind' key') :
    kind = kind' ∧ cache.entryName key = cache.entryName key' := by
  have hkind : kind = kind' := by
    by_cases hne : kind = kind'
    · exact hne
    · have hwithin := isWithin_entryPlace cache base kind key
      rw [heq] at hwithin
      exact absurd hwithin (not_isWithin_entryPlace hne)
  subst hkind
  have hname := child_inj (h.isName key).slash (h.isName key').slash heq
  exact ⟨rfl, String.append_left_inj _ |>.1 hname⟩

theorem entryPlace_notMem_trail : cache.entryPlace base kind key ∉ trail :=
  fun hmem => h.outside kind _ hmem (isWithin_entryPlace cache base kind key)

-- ---------------------------------------------------------------------------
-- Ways
-- ---------------------------------------------------------------------------

theorem way?_entryPath (kind : Kind) (key : String) : way? (cache.entryPath kind key) =
    some ⟨trail ++ [kindPlace base kind], cache.entryPlace base kind key⟩ := by
  have hname := h.isName key
  have hkind := h.way kind
  obtain ⟨hne, hlast⟩ := kindPath_end cache kind
  have hpath : (cache.entryPath kind key).toList =
      (cache.kindPath kind).toList ++ '/' :: (cache.entryName key ++ ".json").toList := by
    unfold entryPath
    rw [toList_within hname hne hlast]
  rw [way?] at hkind ⊢
  rw [start?_append hname hpath hne]
  obtain ⟨⟨place, segments⟩, hstart, hfrom⟩ := Option.bind_eq_some_iff.1 hkind
  rw [hstart]
  simp only [Option.map_some, Option.bind_some] at hfrom ⊢
  rw [wayFrom?_append, hfrom, Option.bind_some, wayFrom?_name hname]
  rfl

end LiesAt

-- ---------------------------------------------------------------------------
-- Folders of caches
-- ---------------------------------------------------------------------------

/-- The segments of the folder of a kind are those of the folder of the cache and a name. -/
theorem exists_splitAt_kindPath (cache : Cache) : ∃ segments,
    segments ⊆ Text.splitAt (· == '/') cache.folder.toList ∧
    ∀ kind, Text.splitAt (· == '/') (cache.kindPath kind).toList =
      segments ++ [kind.folder.toList] := by
  have hname (kind : Kind) := (isName_folder kind).splitAt
  have habsolute (kind : Kind) := isAbsolute_eq_false (isName_folder kind).slash
  by_cases hempty : cache.folder = ""
  · refine ⟨[], List.nil_subset _, fun kind => ?_⟩
    simp [kindPath, Path.within, hempty, hname]
  · by_cases hlast : cache.folder.toList.getLast? = some '/'
    · obtain ⟨outer, houter⟩ := List.getLast?_eq_some_iff.1 hlast
      refine ⟨Text.splitAt (· == '/') outer, ?_, fun kind => ?_⟩
      · rw [houter, Text.splitAt_append (by rfl)]
        exact List.subset_append_left ..
      · have hpath : (cache.kindPath kind).toList = outer ++ '/' :: kind.folder.toList := by
          simp [kindPath, Path.within, habsolute, hempty, houter]
        rw [hpath, Text.splitAt_append (by rfl), hname]
    · refine ⟨_, fun _ h => h, fun kind => ?_⟩
      rw [kindPath, toList_within (isName_folder kind) hempty hlast,
        Text.splitAt_append (by rfl), hname]

/-- A cache lies in any folder whose path never turns back. -/
theorem exists_liesAt (hname : ∀ key, '/' ∉ (cache.entryName key).toList)
    (hfolder : ∀ s ∈ Text.splitAt (· == '/') cache.folder.toList, Path.isClimb s = false) :
    ∃ trail base, cache.LiesAt trail base := by
  obtain ⟨segments, hsegments, hsplit⟩ := exists_splitAt_kindPath cache
  obtain ⟨place, rest, hrest, hstart⟩ := exists_start?_concat segments
  obtain ⟨way, hway, hshort⟩ := exists_wayFrom? (fun s hs => hfolder s (hsegments (hrest hs))) place
  refine ⟨way.through ++ [way.goal], way.goal, hname, fun kind => ?_, fun kind x hx hwithin => ?_⟩
  · rw [way?, hstart _ _ (isName_folder kind).ne_nil (hsplit kind)]
    change wayFrom? place (rest ++ [kind.folder.toList]) = _
    rw [wayFrom?_append, hway, Option.bind_some, wayFrom?_name (isName_folder kind)]
    rfl
  · -- The folders of the kinds have longer paths than all in front of them.
    have hlength : x.toList.length ≤ way.goal.toList.length :=
      hshort x (by simpa [Way.places, or_comm] using hx)
    have hkind : way.goal.toList.length < (kindPlace way.goal kind).toList.length :=
      length_lt_child way.goal (isName_folder kind)
    have hbelow := hwithin.length_le (kindPlace_ne_top _ _).1
    omega

-- ---------------------------------------------------------------------------
-- Reachable entries
-- ---------------------------------------------------------------------------

/-- Whatever is at the place of an entry can be reached. -/
def Reached (cache : Cache) (trail : List String) (base : String) (files : Files) : Prop :=
  ∀ kind key, (files.at? (cache.entryPlace base kind key)).isSome →
    ∀ x ∈ trail ++ [kindPlace base kind], files.isFolderAt x

/-- Content and time of change of the node at a place, if it is a file. -/
def fileOf? : Option FileNode → Option (Content × Nat)
  | some (.file content modified) => some (content, modified)
  | _ => none

variable {files files' : Files}

/-- Nothing comes to the places of entries, and no folder is lost on the way there. -/
theorem Reached.of_le (hreached : cache.Reached trail base files)
    (hentries : ∀ kind key, (files'.at? (cache.entryPlace base kind key)).isSome →
      (files.at? (cache.entryPlace base kind key)).isSome ∧
        ∀ x ∈ trail ++ [kindPlace base kind], files.isFolderAt x → files'.isFolderAt x) :
    cache.Reached trail base files' := by
  intro kind key hentry x hx
  obtain ⟨hbefore, hstays⟩ := hentries kind key hentry
  exact hstays x hx (hreached kind key hbefore x hx)

namespace LiesAt

variable (h : cache.LiesAt trail base) (hreached : cache.Reached trail base files)

include h hreached

/-- What is read at the path of an entry is what is at its place. -/
theorem file?_entryPath (kind : Kind) (key : String) :
    files.file? (cache.entryPath kind key) =
      fileOf? (files.at? (cache.entryPlace base kind key)) := by
  apply Option.ext
  rintro ⟨content, modified⟩
  rw [file?_eq_some_iff]
  constructor
  · rintro ⟨way, hway, -, hat⟩
    cases (h.way?_entryPath kind key).symm.trans hway
    rw [hat]
    rfl
  · intro hfile
    refine ⟨_, h.way?_entryPath kind key, hreached kind key ?_, ?_⟩
    all_goals
      unfold fileOf? at hfile
      split at hfile
      · rename_i hat
        cases hfile
        simp [hat]
      · cases hfile

/-- Writing next to the entries touches none of them. -/
theorem of_write?_outside {path : String} {content : Content} {modified : Nat} {way : Way}
    (hwrite : files.write? path content modified = some files') (hway : way? path = some way)
    (houtside : ∀ kind key, cache.entryPlace base kind key ∉ way.places) :
    cache.Reached trail base files' ∧ ∀ kind key,
      files'.file? (cache.entryPath kind key) = files.file? (cache.entryPath kind key) := by
  have hat (kind key) := at?_of_write? hwrite hway (houtside kind key)
  have hreached' : cache.Reached trail base files' :=
    hreached.of_le fun kind key hentry =>
      ⟨hat kind key ▸ hentry, fun x _ => isFolderAt_of_write? hwrite⟩
  refine ⟨hreached', fun kind key => ?_⟩
  rw [h.file?_entryPath hreached, h.file?_entryPath hreached', hat]

/-- Writing an entry touches no other one, unless they share their place. -/
theorem of_write?_entry {content : Content} {modified : Nat}
    (hwrite : files.write? (cache.entryPath kind key) content modified = some files') :
    cache.Reached trail base files' ∧ ∀ kind' key',
      files'.file? (cache.entryPath kind' key') =
        if cache.entryPlace base kind' key' = cache.entryPlace base kind key then
          some (content, modified)
        else files.file? (cache.entryPath kind' key') := by
  have hway := h.way?_entryPath kind key
  have hgoal := at?_goal_of_write? hwrite hway
  have hopen := isOpen_of_write? hwrite hway
  have hat (kind' key') (hne : cache.entryPlace base kind' key' ≠ cache.entryPlace base kind key) :
      files'.at? (cache.entryPlace base kind' key') =
        files.at? (cache.entryPlace base kind' key') := by
    refine at?_of_write? hwrite hway fun hmem => ?_
    rcases List.mem_cons.1 hmem with heq | hmem
    · exact hne heq
    · rcases List.mem_append.1 hmem with hmem | hmem
      · exact h.entryPlace_notMem_trail hmem
      · exact entryPlace_ne_kindPlace (List.mem_singleton.1 hmem)
  have hreached' : cache.Reached trail base files' := by
    intro kind' key' hentry x hx
    by_cases heq : cache.entryPlace base kind' key' = cache.entryPlace base kind key
    · obtain ⟨rfl, -⟩ := h.entryPlace_inj heq
      exact hopen x hx
    · rw [hat kind' key' heq] at hentry
      exact isFolderAt_of_write? hwrite (hreached kind' key' hentry x hx)
  refine ⟨hreached', fun kind' key' => ?_⟩
  rw [h.file?_entryPath hreached, h.file?_entryPath hreached']
  split
  · rename_i heq
    rw [heq, hgoal]
    rfl
  · rename_i hne
    rw [hat kind' key' hne]

/-- Removing the folder of a kind removes all entries of the kind. -/
theorem of_removeFolder? (hremove : files.removeFolder? (cache.kindPath kind) = some files') :
    cache.Reached trail base files' ∧ ∀ kind' key,
      files'.file? (cache.entryPath kind' key) =
        if kind' = kind then none else files.file? (cache.entryPath kind' key) := by
  obtain ⟨-, hgone, hstays⟩ :=
    Files.of_removeFolder? hremove (h.way kind) (kindPlace_ne_top base kind)
  have hentry (kind' key) : files'.at? (cache.entryPlace base kind' key) =
      if kind' = kind then none else files.at? (cache.entryPlace base kind' key) := by
    split
    · rename_i heq
      exact hgone _ (heq ▸ isWithin_entryPlace cache base kind' key)
    · rename_i hne
      exact hstays _ (not_isWithin_entryPlace (Ne.symm hne))
  have hreached' : cache.Reached trail base files' := by
    refine hreached.of_le fun kind' key hsome => ?_
    rw [hentry] at hsome
    split at hsome
    · cases hsome
    · rename_i hne
      refine ⟨hsome, fun x hx hfolder => ?_⟩
      rw [isFolderAt_iff] at hfolder ⊢
      rw [hstays x, hfolder]
      rcases List.mem_append.1 hx with hx | hx
      · exact h.outside kind x hx
      · exact List.mem_singleton.1 hx ▸ not_isWithin_kindPlace (Ne.symm hne)
  refine ⟨hreached', fun kind' key => ?_⟩
  rw [h.file?_entryPath hreached, h.file?_entryPath hreached', hentry]
  split <;> rfl

end LiesAt

-- ---------------------------------------------------------------------------
-- Losses
-- ---------------------------------------------------------------------------

/-- Each file of a source stays as it is or goes. -/
def Drops (cache : Cache) (files files' : Files) : Prop :=
  ∀ kind key, files'.file? (cache.entryPath kind key) = files.file? (cache.entryPath kind key) ∨
    files'.file? (cache.entryPath kind key) = none

theorem Drops.refl (cache : Cache) (files : Files) : Drops cache files files := fun _ _ => .inl rfl

theorem Drops.trans {files'' : Files} (h : Drops cache files files')
    (k : Drops cache files' files'') : Drops cache files files'' := by
  intro kind key
  rcases k kind key with k | k
  · rw [k]
    exact h kind key
  · exact .inr k

namespace LiesAt

variable (h : cache.LiesAt trail base) (hreached : cache.Reached trail base files)

include h hreached

/-- A file that is removed may be one of an entry. -/
theorem drops_remove? {path : String} (hremove : files.remove? path = some files') :
    cache.Reached trail base files' ∧ Drops cache files files' := by
  obtain ⟨way, _, _, -, -, hat⟩ := of_remove? hremove
  have hreached' : cache.Reached trail base files' := by
    refine hreached.of_le fun kind key hsome => ?_
    rw [hat] at hsome
    split at hsome
    · cases hsome
    · exact ⟨hsome, fun x _ => isFolderAt_of_remove? hremove⟩
  refine ⟨hreached', fun kind key => ?_⟩
  rw [h.file?_entryPath hreached, h.file?_entryPath hreached', hat]
  split
  · exact .inr rfl
  · exact .inl rfl

/-- Without the folder of a kind, there are less files and no others. -/
theorem drops_removeFolder? (hremove : files.removeFolder? (cache.kindPath kind) = some files') :
    cache.Reached trail base files' ∧ Drops cache files files' := by
  obtain ⟨hreached', hfile⟩ := h.of_removeFolder? hreached hremove
  refine ⟨hreached', fun kind' key => ?_⟩
  rw [hfile]
  split
  · exact .inr rfl
  · exact .inl rfl

theorem drops_clearKind (kind : Kind) :
    cache.Reached trail base (cache.clearKind kind files).1 ∧
      Drops cache files (cache.clearKind kind files).1 := by
  suffices hcases : (cache.clearKind kind files).1 = files ∨
      files.removeFolder? (cache.kindPath kind) = some (cache.clearKind kind files).1 by
    rcases hcases with heq | hremove
    · rw [heq]
      exact ⟨hreached, .refl cache files⟩
    · exact h.drops_removeFolder? hreached hremove
  unfold clearKind
  simp only
  split
  · exact .inl rfl
  · split
    · rename_i hremove
      exact .inr hremove
    · exact .inl rfl

theorem drops_clear :
    cache.Reached trail base (cache.clear files).1 ∧ Drops cache files (cache.clear files).1 := by
  obtain ⟨hreached', hdrops⟩ := h.drops_clearKind hreached .templates
  unfold clear
  split
  · rename_i heq
    rw [heq] at hreached' hdrops
    obtain ⟨hreached'', hdrops'⟩ := h.drops_clearKind hreached' .dictionaries
    exact ⟨hreached'', hdrops.trans hdrops'⟩
  · rename_i heq
    rw [heq] at hreached' hdrops
    exact ⟨hreached', hdrops⟩

end LiesAt

end Cache

end XmlTemplate
