import XmlTemplate.Proofs.Cache.Entry
import XmlTemplate.Proofs.Render.Consult
import XmlTemplate.Proofs.Template.Numbers

/-!
# What an engine learns of a template

A compilation at a path is remembered or cached under the path and the time of its source, and under
nothing else. Whatever an engine is asked for, it keeps the compilations that were there, or makes
new ones of what its source has at that time.
-/

namespace XmlTemplate

open Cache (Reached entryOf? entryIn?)

theorem Source.read_folder_eq_ok_iff {root path : String} {files : Files} {revision : Revision} :
    (Source.folder root).read files path = .ok revision ↔
      ∃ content, files.file? (filePath root path) = some (content, revision.modified) ∧
        content.shown = revision.text := by
  delta read
  cases hfile : files.file? (filePath root path) with
  | none =>
    simp only [hfile]
    exact ⟨nofun, fun ⟨_, h, _⟩ => nomatch h⟩
  | some file =>
    simp only [hfile, Except.ok.injEq, Option.some.injEq]
    constructor
    · rintro rfl
      exact ⟨file.1, rfl, rfl⟩
    · rintro ⟨content, rfl, htext⟩
      rw [htext]

/-- Loading a dictionary stores it or leaves all files alone. -/
theorem Dictionary.Source.files_load (cache : Option Cache) (language file : String) (files : Files)
    (source : Dictionary.Source) : (source.load cache language file files).2 = files ∨
      ∃ c ∈ cache, ∃ key dictionary modified, (source.load cache language file files).2 =
        c.storeDictionary key dictionary modified files := by
  cases source with
  | memory dictionaries =>
    left
    delta load
    simp only
    split <;> rfl
  | folder root =>
    change (loadFile cache root language file files).2 = files ∨ ∃ c ∈ cache, ∃ key dictionary
      modified, (loadFile cache root language file files).2 =
        c.storeDictionary key dictionary modified files
    delta loadFile
    split
    · exact .inl rfl
    · rename_i key _
      split
      · exact .inl rfl
      · rename_i modified _
        split
        · exact .inl rfl
        · split
          · exact .inl rfl
          · rename_i dictionary _
            cases cache with
            | none => exact .inl rfl
            | some c =>
              refine .inr ⟨c, rfl, key, dictionary, modified, ?_⟩
              simp only

-- ---------------------------------------------------------------------------
-- Compilations
-- ---------------------------------------------------------------------------

/-- A compilation at a path of a source of a time, remembered or cached. -/
def Memory.Has (m : Memory) (cache : Cache) (path : String) (modified : Nat) (t : Template) :
    Prop :=
  cache.loadTemplate? path modified m.files = some t ∨
    ∃ serial, m.compiled.get? path = some (modified, ⟨serial, t⟩)

/-- The template is what an engine compiles of its source as it was at a time, or what the stored
form of this is read as. -/
def Engine.Makes (e : Engine) (files : Files) (path : String) (modified : Nat) (t : Template) :
    Prop :=
  ∃ text compiled, e.source.read files path = .ok ⟨text, modified⟩ ∧
    e.compile path text = .ok compiled ∧
      (t = compiled ∨ Template.ofDraft? (.ofJson 1 compiled.toJson) = some t)

/-- An engine caches in one cache or not at all, and the source at a path is no file of the
cache. -/
structure Engine.Uses (e : Engine) (cache : Cache) (base path : String) : Prop where
  only : ∀ c ∈ e.cache, c = cache
  apart : ∀ root way, e.source = .folder root →
    Files.way? (Source.filePath root path) = some way →
      ∀ kind key, way.goal ≠ cache.entryPlace base kind key

/-- One memory follows from the other: what can be read at the path stays, and new compilations
are made of what can be read. -/
structure Engine.Learns (e : Engine) (cache : Cache) (trail : List String) (base path : String)
    (m m' : Memory) : Prop where
  reached : cache.Reached trail base m.files → cache.Reached trail base m'.files
  read {revision : Revision} : e.source.read m.files path = .ok revision →
    e.source.read m'.files path = .ok revision
  has {modified : Nat} {t : Template} : cache.Reached trail base m.files →
    m'.Has cache path modified t → m.Has cache path modified t ∨
      e.Makes m'.files path modified t

namespace Engine

variable {e : Engine} {cache : Cache} {trail : List String} {base path : String} {m m' m'' : Memory}
  {files files' : Files}

theorem Makes.mono {modified : Nat} {t : Template} (h : e.Makes files path modified t)
    (hread : ∀ {revision}, e.source.read files path = .ok revision →
      e.source.read files' path = .ok revision) : e.Makes files' path modified t := by
  obtain ⟨text, compiled, hsource, hcompiled⟩ := h
  exact ⟨text, compiled, hread hsource, hcompiled⟩

namespace Learns

theorem refl (m : Memory) : e.Learns cache trail base path m m := ⟨id, id, fun _ => .inl⟩

theorem trans (h : e.Learns cache trail base path m m')
    (k : e.Learns cache trail base path m' m'') :
    e.Learns cache trail base path m m'' where
  reached hreached := k.reached (h.reached hreached)
  read hread := k.read (h.read hread)
  has hreached hhas := by
    rcases k.has (h.reached hreached) hhas with hhas | hmakes
    · exact (h.has hreached hhas).imp_right (·.mono k.read)
    · exact .inr hmakes

end Learns

theorem load_eq_error {key : String} {fault : Fault}
    (hread : e.source.read m.files (Path.normalize key) = .error fault) :
    e.load key m = (.error fault, m) := by
  unfold load
  simp only [hread]

-- ---------------------------------------------------------------------------
-- Writing entries
-- ---------------------------------------------------------------------------

namespace Uses

variable (h : e.Uses cache base path)

include h

/-- Writing an entry does not change what can be read. -/
theorem read_of_write? (hlies : cache.LiesAt trail base) {kind : Cache.Kind} {key : String}
    {content : Content} {modified : Nat}
    (hwrite : files.write? (cache.entryPath kind key) content modified = some files')
    {revision : Revision} (hread : e.source.read files path = .ok revision) :
    e.source.read files' path = .ok revision := by
  cases hsource : e.source with
  | memory shelf =>
    rw [hsource] at hread
    exact hread
  | folder root =>
    rw [hsource, Source.read_folder_eq_ok_iff] at hread
    obtain ⟨content, hfile, htext⟩ := hread
    obtain ⟨way, hway, hopen, hat⟩ := Files.file?_eq_some_iff.1 hfile
    have hapart := h.apart root way hsource hway kind key
    refine Source.read_folder_eq_ok_iff.2 ⟨content, Files.file?_eq_some_iff.2 ⟨way, hway, ?_, ?_⟩,
      htext⟩
    · exact fun x hx => Files.isFolderAt_of_write? hwrite (hopen x hx)
    · exact Files.at?_of_write?_of_some hwrite (hlies.way?_entryPath kind key) hapart hat

/-- An entry that is written, if its file spells nothing that was not made. -/
theorem learns_of_write? (hlies : cache.LiesAt trail base) {kind : Cache.Kind} {key : String}
    {content : Content} {time : Nat}
    (hwrite : m.files.write? (cache.entryPath kind key) content time = some files')
    (hcontent : kind = .templates → ∀ modified (t : Template),
      entryIn? .templates content = some ⟨path, modified, t⟩ → e.Makes m.files path modified t) :
    e.Learns cache trail base path m { m with files := files' } where
  reached hreached := (hlies.of_write?_entry hreached hwrite).1
  read := h.read_of_write? hlies hwrite
  has {modified t} hreached hhas := by
    rcases hhas with hstored | hremembered
    · have hfile := (hlies.of_write?_entry hreached hwrite).2 .templates path
      have hentry := Cache.loadTemplate?_eq_some_iff.1 hstored
      rw [hfile] at hentry
      split at hentry
      · rename_i hplace
        have hkind := (hlies.entryPlace_inj hplace).1.symm
        exact .inr ((hcontent hkind modified t hentry).mono (h.read_of_write? hlies hwrite))
      · exact .inl (.inl (Cache.loadTemplate?_eq_some_iff.2 hentry))
    · exact .inl (.inr hremembered)

/-- Storing the compilation of a source. -/
theorem learns_storeTemplate (hlies : cache.LiesAt trail base) {key : String} {revision : Revision}
    {t : Template} (hread : e.source.read m.files key = .ok revision)
    (hcompile : e.compile key revision.text = .ok t) :
    e.Learns cache trail base path m
      { m with files := cache.storeTemplate t revision.modified m.files } := by
  unfold Cache.storeTemplate Cache.store
  cases hwrite : m.files.write? (cache.entryPath .templates t.path)
      (.document (Cache.Entry.toJson ⟨t.path, revision.modified, t.toJson⟩)) revision.modified with
  | none => exact .refl m
  | some files' =>
    refine h.learns_of_write? hlies hwrite fun _ modified t' hentry => ?_
    have hpath : t.path = key := Template.path_of_compile hcompile
    have hstored := Cache.entryIn?_toJson .templates t.path revision.modified t.toJson
    rw [hentry] at hstored
    split at hstored
    · obtain ⟨payload, hpayload, heq⟩ := Option.map_eq_some_iff.1 hstored.symm
      cases heq
      subst hpath
      exact ⟨revision.text, t, hread, hcompile, .inr hpayload⟩
    · cases hstored

theorem learns_loadDictionary (hlies : cache.LiesAt trail base) (language file : String)
    (m : Memory) : e.Learns cache trail base path m (e.loadDictionary language file m).2 := by
  change e.Learns cache trail base path m
    { m with files := (e.dictionaries.load e.cache language file m.files).2 }
  rcases e.dictionaries.files_load e.cache language file m.files with hsame | ⟨c, hc, hstored⟩
  · rw [hsame]
    exact .refl m
  · cases h.only c hc
    obtain ⟨key, dictionary, modified, hfiles⟩ := hstored
    rw [hfiles]
    unfold Cache.storeDictionary Cache.store
    cases hwrite : m.files.write? (cache.entryPath .dictionaries key)
        (.document (Cache.Entry.toJson ⟨key, modified, dictionary.toJson⟩)) modified with
    | none => exact .refl m
    | some files' => exact h.learns_of_write? hlies hwrite nofun

-- ---------------------------------------------------------------------------
-- Loading
-- ---------------------------------------------------------------------------

omit h in
theorem learns_remember {key : String} {modified : Nat} {t : Template}
    (hnew : key = path → m.Has cache path modified t ∨ e.Makes m.files path modified t) :
    e.Learns cache trail base path m (remember key modified t m).2 where
  reached := id
  read := id
  has {time t'} _ hhas := by
    rcases hhas with hstored | ⟨serial, hremembered⟩
    · exact .inl (.inl hstored)
    · by_cases hkey : key = path
      · subst hkey
        rw [remember, Table.get?_put_self] at hremembered
        cases hremembered
        exact hnew rfl
      · rw [remember, Table.get?_put_of_ne (Ne.symm hkey)] at hremembered
        exact .inl (.inr ⟨serial, hremembered⟩)

theorem learns_loadRevision (hlies : cache.LiesAt trail base) {key : String} {revision : Revision}
    (hread : e.source.read m.files key = .ok revision) :
    e.Learns cache trail base path m (e.loadRevision key revision m).2 := by
  unfold loadRevision
  split
  · rename_i t hcached
    obtain ⟨c, hc, hload⟩ := Option.bind_eq_some_iff.1 hcached
    cases h.only c hc
    exact learns_remember fun hkey => .inl (.inl (hkey ▸ hload))
  · split
    · exact .refl m
    · rename_i t hcompile
      have hmakes (hkey : key = path) : e.Makes m.files path revision.modified t :=
        hkey ▸ ⟨revision.text, t, hread, hcompile, .inl rfl⟩
      cases hcache : e.cache with
      | none => exact learns_remember fun hkey => .inr (hmakes hkey)
      | some c =>
        cases h.only c hcache
        have hstore := h.learns_storeTemplate hlies hread hcompile
        exact hstore.trans (learns_remember fun hkey => .inr ((hmakes hkey).mono hstore.read))

theorem learns_load (hlies : cache.LiesAt trail base) (key : String) (m : Memory) :
    e.Learns cache trail base path m (e.load key m).2 := by
  unfold load
  simp only
  split
  · exact .refl m
  · rename_i revision hread
    split
    · split
      · exact .refl m
      · exact h.learns_loadRevision hlies hread
    · exact h.learns_loadRevision hlies hread

/-- What is loaded of a source was there for its time, or is compiled. -/
theorem loadRevision_eq {key : String} {revision : Revision} :
    (∃ t, (e.loadRevision key revision m).1.map Compiled.template = .ok t ∧
      m.Has cache key revision.modified t) ∨
    (e.loadRevision key revision m).1.map Compiled.template = e.compile key revision.text := by
  unfold loadRevision
  split
  · rename_i t hcached
    obtain ⟨c, hc, hload⟩ := Option.bind_eq_some_iff.1 hcached
    cases h.only c hc
    exact .inl ⟨t, rfl, .inl hload⟩
  · cases e.compile key revision.text with
    | error fault => exact .inr rfl
    | ok t => exact .inr rfl

theorem load_eq {key : String} {revision : Revision}
    (hread : e.source.read m.files (Path.normalize key) = .ok revision) :
    (∃ t, (e.load key m).1.map Compiled.template = .ok t ∧
      m.Has cache (Path.normalize key) revision.modified t) ∨
    (e.load key m).1.map Compiled.template = e.compile (Path.normalize key) revision.text := by
  unfold load
  simp only [hread]
  split
  · rename_i modified compiled hremembered
    split
    · rename_i htime
      exact .inl ⟨compiled.template, rfl, .inr ⟨compiled.serial, htime ▸ hremembered⟩⟩
    · exact h.loadRevision_eq
  · exact h.loadRevision_eq

/-- Whatever an engine is asked for, it learns what it makes. -/
theorem admits (hlies : cache.LiesAt trail base) :
    e.Admits (e.Learns cache trail base path) where
  refl := .refl
  trans := .trans
  load := h.learns_load hlies
  loadDictionary := h.learns_loadDictionary hlies
  parsed _ m := { Learns.refl m with }

end Uses

end Engine

end XmlTemplate
