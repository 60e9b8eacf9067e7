import XmlTemplate.Proofs.Render.Loads
import XmlTemplate.Proofs.Workspace.History

/-!
# Finding templates

What a load comes to is told once, by its four outcomes. An engine keeps templates in its memory and
in its cache, and what is in the cache may have been there before the engine was. Whatever the
engine is asked for, what it then keeps of a path it kept before, or it was made of the text that
could be read there.
-/

namespace XmlTemplate

open Cache (holds_of_loadTemplate? holds_of_storeTemplate holds_of_storeDictionary)

-- ---------------------------------------------------------------------------
-- One load
-- ---------------------------------------------------------------------------

namespace Engine

/-- The engine with texts in memory as its source. -/
def onShelf (e : Engine) (shelf : Shelf) : Engine := { e with source := .memory shelf }

/-- A compilation of a source of a time that is remembered or cached under a path. -/
def Knows (e : Engine) (m : Memory) (path : String) (modified : Nat) (t : Template) : Prop :=
  (∃ cache ∈ e.cache, cache.loadTemplate? path modified m.files = some t) ∨
    ∃ serial, m.compiled.get? path = some (modified, ⟨serial, t⟩)

/-- Where a template comes from that is not remembered, and the files after it was stored. -/
inductive Fetches (e : Engine) (path : String) (revision : Revision) (files : Files) :
    Template → Files → Prop
  | cached {cache : Cache} {t : Template} (hcache : e.cache = some cache)
      (hload : cache.loadTemplate? path revision.modified files = some t) :
      Fetches e path revision files t files
  | compiled {t : Template} (hcache : e.cache = none)
      (hcompile : e.compile path revision.text = .ok t) : Fetches e path revision files t files
  | stored {cache : Cache} {t : Template} (hcache : e.cache = some cache)
      (hcompile : e.compile path revision.text = .ok t) :
      Fetches e path revision files t (cache.storeTemplate t revision.modified files)

/-- What loading a template comes to, and what it leaves of the memory. -/
inductive Loads (e : Engine) (path : String) (m : Memory) :
    Except Fault Compiled → Memory → Prop
  | missed (fault : Fault) (hread : e.source.read m.files path = .error fault) :
      Loads e path m (.error fault) m
  | remembered (revision : Revision) (compiled : Compiled)
      (hread : e.source.read m.files path = .ok revision)
      (hcompiled : m.compiled.get? path = some (revision.modified, compiled)) :
      Loads e path m (.ok compiled) m
  | failed (revision : Revision) (fault : Fault)
      (hread : e.source.read m.files path = .ok revision)
      (hcompile : e.compile path revision.text = .error fault) : Loads e path m (.error fault) m
  | made (revision : Revision) (t : Template) (files : Files)
      (hread : e.source.read m.files path = .ok revision)
      (hnew : ∀ compiled, m.compiled.get? path ≠ some (revision.modified, compiled))
      (hfetches : e.Fetches path revision m.files t files) :
      Loads e path m (.ok ⟨m.serial, t⟩)
        (remember path revision.modified t { m with files := files }).2

variable {e : Engine} {m m' m'' : Memory} {path : String}

theorem loadRevision_loads {revision : Revision}
    (hread : e.source.read m.files path = .ok revision)
    (hnew : ∀ compiled, m.compiled.get? path ≠ some (revision.modified, compiled)) :
    e.Loads path m (e.loadRevision path revision m).1 (e.loadRevision path revision m).2 := by
  unfold loadRevision
  cases hcache : e.cache with
  | none =>
    cases hcompile : e.compile path revision.text with
    | error fault => exact .failed revision fault hread hcompile
    | ok t => exact .made revision t m.files hread hnew (.compiled hcache hcompile)
  | some cache =>
    simp only [Option.bind_some]
    cases hload : cache.loadTemplate? path revision.modified m.files with
    | some t => exact .made revision t m.files hread hnew (.cached hcache hload)
    | none =>
      cases hcompile : e.compile path revision.text with
      | error fault => exact .failed revision fault hread hcompile
      | ok t => exact .made revision t _ hread hnew (.stored hcache hcompile)

theorem load_loads (e : Engine) (path : String) (m : Memory) :
    e.Loads (Path.normalize path) m (e.load path m).1 (e.load path m).2 := by
  unfold load
  simp only
  cases hread : e.source.read m.files (Path.normalize path) with
  | error fault => exact .missed fault hread
  | ok revision =>
    simp only
    cases hcompiled : m.compiled.get? (Path.normalize path) with
    | none => exact loadRevision_loads hread (by simp [hcompiled])
    | some p =>
      obtain ⟨modified, compiled⟩ := p
      simp only
      split
      · rename_i htime
        exact .remembered revision compiled hread (htime ▸ hcompiled)
      · rename_i htime
        refine loadRevision_loads hread fun other heq => htime ?_
        rw [hcompiled] at heq
        cases heq
        rfl

/-- Without a cache, what is fetched is compiled, and no file changes. -/
theorem Fetches.of_none {revision : Revision} {files files' : Files} {t : Template}
    (h : e.Fetches path revision files t files') (hcache : e.cache = none) :
    e.compile path revision.text = .ok t ∧ files' = files := by
  cases h with
  | cached hsome | stored hsome => cases hcache.symm.trans hsome
  | compiled _ hcompile => exact ⟨hcompile, rfl⟩

/-- A load that fails leaves the memory as it is. -/
theorem memory_of_load_eq_error {fault : Fault} (h : (e.load path m).1 = .error fault) :
    (e.load path m).2 = m := by
  have hloads := e.load_loads path m
  rw [h] at hloads
  generalize (e.load path m).2 = m' at hloads
  cases hloads <;> rfl

/-- A load does not touch the expressions that were parsed. -/
theorem parsed_load (e : Engine) (path : String) (m : Memory) :
    (e.load path m).2.parsed = m.parsed := by
  have hloads := e.load_loads path m
  generalize (e.load path m).1 = answer at hloads
  generalize (e.load path m).2 = m' at hloads
  cases hloads <;> rfl

theorem read_onShelf_eq_ok_iff {shelf : Shelf} {files : Files} {revision : Revision} :
    (e.onShelf shelf).source.read files path = .ok revision ↔ shelf.get? path = some revision := by
  unfold onShelf
  delta Source.read
  cases hget : shelf.get? path with
  | none =>
    simp only [hget]
    exact ⟨nofun, nofun⟩
  | some current =>
    simp only [hget, Except.ok.injEq, Option.some.injEq]

theorem read_onShelf_eq_error_iff {shelf : Shelf} {files : Files} {fault : Fault} :
    (e.onShelf shelf).source.read files path = .error fault ↔
      shelf.get? path = none ∧ fault = .missingSource none (Path.normalize path) := by
  unfold onShelf
  delta Source.read
  cases hget : shelf.get? path with
  | none =>
    simp only [hget, Except.error.injEq, true_and, eq_comm]
  | some current =>
    simp only [hget]
    exact ⟨nofun, nofun⟩

-- ---------------------------------------------------------------------------
-- What is kept
-- ---------------------------------------------------------------------------

/-- A template is remembered of a source of a time, or lies in the cache. -/
def Keeps (e : Engine) (m : Memory) (path : String) (modified : Nat) (t : Template) : Prop :=
  (∃ cache ∈ e.cache, cache.Holds m.files path modified t) ∨
    ∃ serial, m.compiled.get? path = some (modified, ⟨serial, t⟩)

/-- What may be kept of a text: what it is compiled to and, if there is a cache, what this is read
back as. -/
def Yields (e : Engine) (path text : String) (t : Template) : Prop :=
  ∃ compiled, e.compile path text = .ok compiled ∧
    (t = compiled ∨ e.cache ≠ none ∧ Template.ofDraft? (.ofJson 1 compiled.toJson) = some t)

/-- One memory follows from the other: what is kept anew is of the text that could be read. -/
def Finds (e : Engine) (m m' : Memory) : Prop :=
  ∀ path modified t, e.Keeps m' path modified t → e.Keeps m path modified t ∨
    ∃ text, e.source.read m.files path = .ok ⟨text, modified⟩ ∧ e.Yields path text t

variable {modified : Nat} {t : Template}

theorem Knows.keeps (h : e.Knows m path modified t) : e.Keeps m path modified t :=
  h.imp_left fun ⟨cache, hcache, hload⟩ => ⟨cache, hcache, holds_of_loadTemplate? hload⟩

theorem Keeps.knows_of_none (h : e.Keeps m path modified t) (hcache : e.cache = none) :
    e.Knows m path modified t := by
  refine .inr (h.resolve_left fun ⟨cache, hsome, _⟩ => ?_)
  cases hcache.symm.trans hsome

/-- Without a cache, or with one that reads back what was stored there, only the compilation of a
text may be kept. -/
theorem Yields.compile_eq {text : String} (h : e.Yields path text t)
    (hexact : e.cache ≠ none → ∀ compiled, e.compile path text = .ok compiled → compiled.IsExact) :
    e.compile path text = .ok t := by
  obtain ⟨compiled, hcompile, rfl | ⟨hcache, hread⟩⟩ := h
  · exact hcompile
  · rw [hexact hcache compiled hcompile t hread]
    exact hcompile

/-- What is fetched was in the cache, or is the compilation. -/
theorem Fetches.keeps_or {revision : Revision} {files : Files}
    (h : e.Fetches path revision m.files t files) :
    e.Keeps m path revision.modified t ∨ e.compile path revision.text = .ok t := by
  cases h with
  | cached hcache hload => exact .inl (.inl ⟨_, hcache, holds_of_loadTemplate? hload⟩)
  | compiled _ hcompile | stored _ hcompile => exact .inr hcompile

/-- What is in the cache after a template was fetched. -/
theorem Fetches.holds {revision : Revision} {files files' : Files} {key : String} {cache : Cache}
    {time : Nat} {other : Template} (h : e.Fetches key revision files t files')
    (hcache : e.cache = some cache) (hholds : cache.Holds files' path time other) :
    cache.Holds files path time other ∨
      path = key ∧ time = revision.modified ∧ e.Yields key revision.text other := by
  cases h with
  | cached | compiled => exact .inl hholds
  | stored hsome hcompile =>
    cases hcache.symm.trans hsome
    refine (holds_of_storeTemplate hholds).imp_right fun ⟨hpath, htime, hread⟩ => ?_
    have hkey : t.path = key := Template.path_of_compile hcompile
    exact ⟨hpath.trans hkey, htime, t, hcompile, .inr ⟨by simp [hcache], hread⟩⟩

theorem finds_load (e : Engine) (key : String) (m : Memory) : e.Finds m (e.load key m).2 := by
  have hloads := e.load_loads key m
  generalize (e.load key m).1 = answer at hloads
  generalize (e.load key m).2 = m' at hloads
  cases hloads with
  | missed | remembered | failed => exact fun _ _ _ => .inl
  | made revision t files hread hnew hfetches =>
    rintro path time other (⟨cache, hcache, hholds⟩ | ⟨serial, hremembered⟩)
    · rcases hfetches.holds hcache hholds with hbefore | ⟨rfl, rfl, hyields⟩
      · exact .inl (.inl ⟨cache, hcache, hbefore⟩)
      · exact .inr ⟨revision.text, hread, hyields⟩
    · by_cases hkey : path = Path.normalize key
      · subst hkey
        rw [remember, Table.get?_put_self] at hremembered
        cases hremembered
        exact hfetches.keeps_or.imp_right fun hcompile =>
          ⟨revision.text, hread, t, hcompile, .inl rfl⟩
      · rw [remember, Table.get?_put_of_ne hkey] at hremembered
        exact .inl (.inr ⟨serial, hremembered⟩)

theorem finds_loadDictionary (e : Engine) (language file : String) (m : Memory) :
    e.Finds m (e.loadDictionary language file m).2 := by
  rintro path time t (⟨cache, hcache, hholds⟩ | hremembered)
  · refine .inl (.inl ⟨cache, hcache, ?_⟩)
    change cache.Holds (e.dictionaries.load e.cache language file m.files).2 path time t at hholds
    rcases e.dictionaries.files_load e.cache language file m.files with
      hsame | ⟨c, hc, key, dictionary, modified, hstored⟩
    · rwa [hsame] at hholds
    · cases hcache.symm.trans hc
      rw [hstored] at hholds
      exact holds_of_storeDictionary hholds
  · exact .inl (.inr hremembered)

end Engine

end XmlTemplate
