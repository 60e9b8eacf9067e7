import XmlTemplate.Proofs.Engine.Asked
import XmlTemplate.Proofs.Engine.Find

/-!
# Answers that do not change

During a render an engine asks its source and its dictionaries again and again. It is steady if the
answers do not depend on what was asked before. This may fail if the cache of the engine lies among
its templates or has entries of other texts. An engine without a cache is steady, wherever its texts
come from.
-/

namespace XmlTemplate.Engine

/-- What loading a path gives when it is compiled: what comes of the text that the source has. -/
def due (e : Engine) (files : Files) (path : String) : Except Fault Template := do
  let revision ← e.source.read files (Path.normalize path)
  e.compile (Path.normalize path) revision.text

/-- Whatever was asked before, all questions have the answers that they had at first, and what is
loaded was compiled of some text. -/
structure Steady (e : Engine) (m₀ : Memory) : Prop where
  load {m : Memory} (h : e.Asked m₀ m) (path : String) :
    (e.load path m).1.map Compiled.template = (e.load path m₀).1.map Compiled.template
  compiled {path : String} {compiled : Compiled} (h : (e.load path m₀).1 = .ok compiled) :
    ∃ path lead text, Template.compile path lead text = .ok compiled.template
  loadDictionary {m : Memory} (h : e.Asked m₀ m) (language file : String) :
    (e.loadDictionary language file m).1 = (e.loadDictionary language file m₀).1
  read {m : Memory} (h : e.Asked m₀ m) (path : String) :
    e.source.read m.files path = e.source.read m₀.files path

/-- What is remembered or cached of a source as it is now was compiled of its text. -/
def IsCurrent (e : Engine) (m : Memory) : Prop :=
  ∀ path revision t, e.source.read m.files path = .ok revision →
    e.Knows m path revision.modified t → e.compile path revision.text = .ok t

/-- One memory follows from the other: it is current if the other one is, and the texts of the
source and the dictionaries are the same. -/
structure Stays (e : Engine) (m m' : Memory) : Prop where
  current : e.IsCurrent m → e.IsCurrent m'
  read (path : String) : e.source.read m'.files path = e.source.read m.files path
  loadDictionary (language file : String) :
    (e.loadDictionary language file m').1 = (e.loadDictionary language file m).1

variable {e : Engine} {m m' m'' : Memory}

theorem exists_compile_of_due {files : Files} {path : String} {template : Template}
    (h : e.due files path = .ok template) :
    ∃ text, Template.compile (Path.normalize path) e.lead text = .ok template := by
  obtain ⟨revision, -, hcompile⟩ := Outcome.of_bind h
  exact ⟨revision.text, hcompile⟩

/-- A path gives the compilation of its source if this is what is remembered of it, or else what is
cached, if anything is. -/
theorem load_eq_due {path : String}
    (hremembered : ∀ {revision : Revision} {compiled : Compiled},
      e.source.read m.files (Path.normalize path) = .ok revision →
      m.compiled.get? (Path.normalize path) = some (revision.modified, compiled) →
        e.compile (Path.normalize path) revision.text = .ok compiled.template)
    (hcached : ∀ {revision : Revision} {cache : Cache} {t : Template}, e.cache = some cache →
      e.source.read m.files (Path.normalize path) = .ok revision →
      (∀ compiled, m.compiled.get? (Path.normalize path) ≠ some (revision.modified, compiled)) →
      cache.loadTemplate? (Path.normalize path) revision.modified m.files = some t →
        e.compile (Path.normalize path) revision.text = .ok t) :
    (e.load path m).1.map Compiled.template = e.due m.files path := by
  have hloads := e.load_loads path m
  unfold due
  generalize (e.load path m).1 = answer at hloads
  generalize (e.load path m).2 = m' at hloads
  cases hloads with
  | missed fault hread =>
    rw [hread]
    rfl
  | remembered revision compiled hread hcompiled =>
    rw [hread]
    exact (hremembered hread hcompiled).symm
  | failed revision fault hread hcompile =>
    rw [hread]
    exact hcompile.symm
  | made revision t files hread hnew hfetches =>
    rw [hread]
    cases hfetches with
    | cached hcache hfound => exact (hcached hcache hread hnew hfound).symm
    | compiled _ hcompile | stored _ hcompile => exact hcompile.symm

theorem IsCurrent.load_eq (h : e.IsCurrent m) (path : String) :
    (e.load path m).1.map Compiled.template = e.due m.files path :=
  load_eq_due (fun hread hcompiled => h _ _ _ hread (.inr ⟨_, hcompiled⟩))
    fun hcache hread _ hfound => h _ _ _ hread (.inl ⟨_, hcache, hfound⟩)

namespace Stays

theorem refl (m : Memory) : e.Stays m m := ⟨id, fun _ => rfl, fun _ _ => rfl⟩

theorem trans (h : e.Stays m m') (k : e.Stays m' m'') : e.Stays m m'' where
  current hcurrent := k.current (h.current hcurrent)
  read path := (k.read path).trans (h.read path)
  loadDictionary language file :=
    (k.loadDictionary language file).trans (h.loadDictionary language file)

end Stays

section

variable (hadmits : e.Admits e.Stays) (h : e.IsCurrent m)

include hadmits h

theorem IsCurrent.load_asked_eq (hasked : e.Asked m m') (path : String) :
    (e.load path m').1.map Compiled.template = e.due m.files path := by
  have hstays := hasked.admits hadmits
  rw [(hstays.current h).load_eq, due, due, hstays.read]

theorem IsCurrent.due_eq_of_gives {path : String} {template : Template}
    (hgives : e.Gives m path template) : e.due m.files path = .ok template := by
  obtain ⟨m', compiled, hasked, hload, rfl⟩ := hgives
  rw [← h.load_asked_eq hadmits hasked, hload]
  rfl

/-- An engine is steady if it stays current. -/
theorem IsCurrent.steady : e.Steady m where
  load hasked path := by rw [h.load_asked_eq hadmits hasked, h.load_eq]
  compiled {path compiled} hload := by
    have hdue := h.load_eq path
    rw [hload] at hdue
    obtain ⟨text, htext⟩ := exists_compile_of_due hdue.symm
    exact ⟨_, _, text, htext⟩
  loadDictionary hasked := (hasked.admits hadmits).loadDictionary
  read hasked := (hasked.admits hadmits).read

end

-- ---------------------------------------------------------------------------
-- Engines without a cache
-- ---------------------------------------------------------------------------

section

variable (hcache : e.cache = none)

include hcache

theorem files_loadDictionary_of_none (language file : String) (m : Memory) :
    (e.loadDictionary language file m).2.files = m.files := by
  change (e.dictionaries.load e.cache language file m.files).2 = m.files
  rcases e.dictionaries.files_load e.cache language file m.files with hsame | ⟨c, hc, -⟩
  · exact hsame
  · rw [hcache] at hc
    cases hc

theorem files_load_of_none (path : String) (m : Memory) :
    (e.load path m).2.files = m.files := by
  have hloads := e.load_loads path m
  generalize (e.load path m).1 = answer at hloads
  generalize (e.load path m).2 = m' at hloads
  cases hloads with
  | missed | remembered | failed => rfl
  | made revision t files hread hnew hfetches => exact (hfetches.of_none hcache).2

theorem stays_of_none (hfinds : e.Finds m m') (hfiles : m'.files = m.files) : e.Stays m m' where
  current hcurrent := by
    rintro path ⟨text, modified⟩ t hread hknows
    rw [hfiles] at hread
    rcases hfinds _ _ _ hknows.keeps with hkept | ⟨made, hmade, hyields⟩
    · exact hcurrent path _ t hread (hkept.knows_of_none hcache)
    · cases hread.symm.trans hmade
      exact hyields.compile_eq (absurd hcache)
  read path := by rw [hfiles]
  loadDictionary language file := by rw [loadDictionary, loadDictionary, hfiles]

/-- Without a cache no file changes. -/
theorem admits_stays_of_none : e.Admits e.Stays where
  refl := .refl
  trans := .trans
  load path m := stays_of_none hcache (e.finds_load path m) (files_load_of_none hcache path m)
  loadDictionary language file m := stays_of_none hcache (e.finds_loadDictionary language file m)
    (files_loadDictionary_of_none hcache language file m)
  parsed _ m := { Stays.refl m with }

/-- Nothing is remembered at first. -/
theorem isCurrent_ofFiles (files : Files) : e.IsCurrent (.ofFiles files) := by
  rintro path revision t - (⟨c, hc, -⟩ | ⟨serial, hremembered⟩)
  · rw [hcache] at hc
    cases hc
  · cases hremembered

/-- At first an engine without a cache is steady. -/
theorem steady_ofFiles (files : Files) : e.Steady (.ofFiles files) :=
  (isCurrent_ofFiles hcache files).steady (admits_stays_of_none hcache)

end

end XmlTemplate.Engine
