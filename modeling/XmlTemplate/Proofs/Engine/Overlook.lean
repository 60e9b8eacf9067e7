import XmlTemplate.Proofs.Engine.Steady
import XmlTemplate.Proofs.Render.Confined

/-!
# Loads that go unnoticed

Two memories are kept side by side. Whatever a page asks for is asked in both of them, but in the
first one a template may be loaded more often. An engine overlooks these loads if both memories give
the same answers all the time. It does so without a cache, and with one that lies apart from the
files that are opened for the page: a load writes nothing but an entry then, and the entry of a
compilation is not looked at as long as the compilation is remembered.
-/

namespace XmlTemplate

open Cache (kindPlace)
open Files (Agree IsOn IsWithin)

namespace Engine

/-- A tag of the kind can be rendered from the page on, in the other template. -/
def Offers (e : Engine) (m : Memory) (page other : Template) (kind : TagKind) : Prop :=
  ∃ t, e.Covers m page page.root other t ∧ t.kind = kind

/-- The paths of the files that are opened for tags of a kind in a template. -/
inductive OpensFor (e : Engine) (template : Template) : TagKind → String → Prop
  | inclusion {root file : String} (h : e.source = .folder root) : OpensFor e template
      (.inclusion file) (Source.filePath root (Path.resolve template.path file))
  | verbatim {root file : String} (h : e.source = .folder root) : OpensFor e template
      (.verbatim file) (Source.filePath root (Path.resolve template.path file))
  | dictionary {root language file key : String} {name source : Option String}
      (h : e.dictionaries = .folder root)
      (hkey : Path.confine? (Dictionary.Source.requested language file) = some key) :
      OpensFor e template (.dictionary file name source) (Path.within root key)

/-- The relation holds at first, and it is kept when the same is asked in both memories, and when
the path is loaded in the first one alone. Related memories give the same answers to what the page
asks for. -/
structure Overlooks (e : Engine) (m₀ : Memory) (page : Template) (path : String)
    (R : Memory → Memory → Prop) : Prop where
  start : R m₀ m₀
  asked {m m' : Memory} (h : R m m') : e.Asked m₀ m
  parsed {m m' : Memory} (h : R m m') (exprs : Table Expr) :
    R { m with parsed := exprs } { m' with parsed := exprs }
  more {m m' : Memory} (h : R m m') : R (e.load path m).2 m'
  load {m m' : Memory} (h : R m m') (path : String) : R (e.load path m).2 (e.load path m').2
  answer {m m' : Memory} (h : R m m') {other : Template} {file : String}
    (hoffers : e.Offers m₀ page other (.inclusion file)) :
    (e.load (Path.resolve other.path file) m).1.map Compiled.template =
        (e.load (Path.resolve other.path file) m₀).1.map Compiled.template ∧
      (e.load (Path.resolve other.path file) m').1.map Compiled.template =
        (e.load (Path.resolve other.path file) m₀).1.map Compiled.template
  compiled {other : Template} {file : String} {compiled : Compiled}
    (hoffers : e.Offers m₀ page other (.inclusion file))
    (hload : (e.load (Path.resolve other.path file) m₀).1 = .ok compiled) :
    ∃ path lead text, Template.compile path lead text = .ok compiled.template
  read {m m' : Memory} (h : R m m') {other : Template} {file : String}
    (hoffers : e.Offers m₀ page other (.verbatim file)) :
    e.source.read m'.files (Path.resolve other.path file) =
      e.source.read m.files (Path.resolve other.path file)
  dictionary {m m' : Memory} (h : R m m') {other : Template} {file : String}
    {name source : Option String} (hoffers : e.Offers m₀ page other (.dictionary file name source))
    (language : String) :
    (e.loadDictionary language file m').1 = (e.loadDictionary language file m).1 ∧
      R (e.loadDictionary language file m).2 (e.loadDictionary language file m').2

/-- The folder of the cache is there, and no file that is opened for the page lies below the folders
of its entries, or is reached through them. -/
structure KeepsApart (e : Engine) (cache : Cache) (trail : List String) (base : String)
    (m : Memory) (page : Template) : Prop where
  lies : cache.LiesAt trail base
  reached : cache.Reached trail base m.files
  isOpen : ∀ x ∈ trail, m.files.isFolderAt x
  apart {other : Template} {tagKind : TagKind} {path : String}
    (hoffers : e.Offers m page other tagKind) (hopens : e.OpensFor other tagKind path)
    (kind : Cache.Kind) : ∀ x, IsOn path x → ¬ IsWithin (kindPlace base kind) x

variable {e : Engine} {m₀ m m' : Memory} {page : Template} {path : String}

/-- A steady engine overlooks everything. -/
theorem Steady.overlooks (h : e.Steady m₀) (page : Template) (path : String) :
    e.Overlooks m₀ page path fun m m' => e.Asked m₀ m ∧ e.Asked m₀ m' where
  start := ⟨.refl m₀, .refl m₀⟩
  asked hasked := hasked.1
  parsed hasked exprs := ⟨hasked.1.parsed exprs, hasked.2.parsed exprs⟩
  more hasked := ⟨hasked.1.load path, hasked.2⟩
  load hasked path := ⟨hasked.1.load path, hasked.2.load path⟩
  answer hasked _ _ _ := ⟨h.load hasked.1 _, h.load hasked.2 _⟩
  compiled _ hload := h.compiled hload
  read hasked _ _ _ := (h.read hasked.2 _).trans (h.read hasked.1 _).symm
  dictionary hasked _ file _ _ _ language :=
    ⟨(h.loadDictionary hasked.2 _ _).trans (h.loadDictionary hasked.1 _ _).symm,
      hasked.1.loadDictionary language file, hasked.2.loadDictionary language file⟩

-- ---------------------------------------------------------------------------
-- Memories with a cache
-- ---------------------------------------------------------------------------

/-- What a load of a normalized path leaves: the memory as it was, or a template is remembered that
was found in the cache, or that was compiled and is stored. -/
inductive Leaves (e : Engine) (path : String) (m : Memory) : Memory → Prop
  | same : Leaves e path m m
  | found {revision : Revision} {c : Cache} {t : Template}
      (hread : e.source.read m.files path = .ok revision)
      (hnew : ∀ compiled, m.compiled.get? path ≠ some (revision.modified, compiled))
      (hcache : e.cache = some c)
      (hfound : c.loadTemplate? path revision.modified m.files = some t) :
      Leaves e path m (remember path revision.modified t m).2
  | compiled {revision : Revision} {t : Template}
      (hread : e.source.read m.files path = .ok revision)
      (hcompile : e.compile path revision.text = .ok t) :
      Leaves e path m (remember path revision.modified t { m with
        files := e.storing .templates ⟨t.path, revision.modified, t.toJson⟩ m.files }).2

theorem leaves_loadRevision {revision : Revision}
    (hread : e.source.read m.files path = .ok revision)
    (hnew : ∀ compiled, m.compiled.get? path ≠ some (revision.modified, compiled)) :
    e.Leaves path m (e.loadRevision path revision m).2 := by
  rw [loadRevision_eq]
  split
  · rename_i t hcached
    obtain ⟨c, hcache, hfound⟩ := Option.bind_eq_some_iff.1 hcached
    exact .found hread hnew hcache hfound
  · split
    · exact .same
    · rename_i t hcompile
      exact .compiled hread hcompile

theorem leaves_load (e : Engine) (path : String) (m : Memory) :
    e.Leaves (Path.normalize path) m (e.load path m).2 := by
  unfold load
  simp only
  split
  · exact .same
  · rename_i revision hread
    split
    · rename_i modified compiled hremembered
      split
      · exact .same
      · rename_i htime
        refine leaves_loadRevision hread fun other heq => htime ?_
        rw [hremembered] at heq
        cases heq
        rfl
    · rename_i hnone
      exact leaves_loadRevision hread fun compiled heq => by simp [hnone] at heq

/-- No file of the source that is opened for the path is reached through the folders of a cache. -/
def IsClear (e : Engine) (base path : String) : Prop :=
  ∀ root, e.source = .folder root → ∀ x, IsOn (Source.filePath root path) x →
    ∀ kind, ¬ IsWithin (kindPlace base kind) x

/-- What questions leave of a memory that was current: the files are the same outside of the cache,
and what is known of a source is its compilation. Of what is remembered the entry may be another
one. -/
structure Upkeep (e : Engine) (cache : Cache) (trail : List String) (base : String)
    (m₀ m : Memory) : Prop where
  asked : e.Asked m₀ m
  reached : cache.Reached trail base m.files
  isOpen : ∀ x ∈ trail, m.files.isFolderAt x
  files : Agree (fun x => ∀ kind, ¬ IsWithin (kindPlace base kind) x) m.files m₀.files
  remembered {path : String} {revision : Revision} {compiled : Compiled}
    (hclear : e.IsClear base path) (hread : e.source.read m₀.files path = .ok revision)
    (h : m.compiled.get? path = some (revision.modified, compiled)) :
    e.compile path revision.text = .ok compiled.template
  cached {path : String} {revision : Revision} {t : Template} (hclear : e.IsClear base path)
    (hread : e.source.read m₀.files path = .ok revision)
    (hnew : ∀ compiled, m.compiled.get? path ≠ some (revision.modified, compiled))
    (h : cache.loadTemplate? path revision.modified m.files = some t) :
    e.compile path revision.text = .ok t

namespace Upkeep

variable {cache : Cache} {trail : List String} {base : String}
  (h : e.Upkeep cache trail base m₀ m)

include h

theorem read_eq (hclear : e.IsClear base path) :
    e.source.read m.files path = e.source.read m₀.files path := by
  cases hsource : e.source with
  | memory shelf => rfl
  | folder root =>
    unfold Source.read
    dsimp only
    rw [h.files.file?_eq (hclear root hsource)]

/-- What a path gives is the compilation of its source as it was at first. -/
theorem load_eq (hcache : e.cache = some cache) (hclear : e.IsClear base (Path.normalize path)) :
    (e.load path m).1.map Compiled.template = e.due m₀.files path := by
  have hread := h.read_eq hclear
  rw [due, ← hread]
  refine load_eq_due (fun hsource hremembered => ?_) fun hsome hsource hnew hfound => ?_
  · exact h.remembered hclear (hread.symm.trans hsource) hremembered
  · cases hcache.symm.trans hsome
    exact h.cached hclear (hread.symm.trans hsource) hnew hfound

/-- What is remembered from now on is the compilation of a source. -/
theorem remember {files : Files} {modified : Nat} {t : Template}
    (hasked : e.Asked m₀ (Engine.remember path modified t { m with files := files }).2)
    (hreached : cache.Reached trail base files) (hopen : ∀ x ∈ trail, files.isFolderAt x)
    (hfiles : Agree (fun x => ∀ kind, ¬ IsWithin (kindPlace base kind) x) files m.files)
    (hcached : ∀ other time u, other ≠ path → cache.loadTemplate? other time files = some u →
      cache.loadTemplate? other time m.files = some u)
    (hsource : ∀ revision, e.IsClear base path → e.source.read m₀.files path = .ok revision →
      revision.modified = modified ∧ e.compile path revision.text = .ok t) :
    e.Upkeep cache trail base m₀ (Engine.remember path modified t { m with files := files }).2 where
  asked := hasked
  reached := hreached
  isOpen := hopen
  files x hx := (hfiles x hx).trans (h.files x hx)
  remembered {other revision compiled} hclear hread hremembered := by
    unfold Engine.remember at hremembered
    by_cases hother : other = path
    · subst hother
      rw [Table.get?_put_self] at hremembered
      cases hremembered
      exact (hsource revision hclear hread).2
    · rw [Table.get?_put_of_ne hother] at hremembered
      exact h.remembered hclear hread hremembered
  cached {other revision u} hclear hread hnew hfound := by
    unfold Engine.remember at hnew
    by_cases hother : other = path
    · subst hother
      rw [(hsource revision hclear hread).1, Table.get?_put_self] at hnew
      exact absurd rfl (hnew _)
    · simp only [Table.get?_put_of_ne hother] at hnew
      exact h.cached hclear hread hnew (hcached other _ u hother hfound)

section

variable (hcache : e.cache = some cache) (hlies : cache.LiesAt trail base)

include hcache hlies

theorem load (path : String) : e.Upkeep cache trail base m₀ (e.load path m).2 := by
  have hleaves := e.leaves_load path m
  have hasked := h.asked.load path
  generalize (e.load path m).2 = m' at hleaves hasked
  cases hleaves with
  | same => exact h
  | found hread hnew hcached hfound =>
    cases hcache.symm.trans hcached
    refine h.remember hasked h.reached h.isOpen (fun _ _ => rfl) (fun _ _ _ _ => id)
      fun revision hclear hsource => ?_
    rw [h.read_eq hclear, hsource] at hread
    cases hread
    exact ⟨rfl, h.cached hclear hsource hnew hfound⟩
  | @compiled revision t hread hcompile =>
    have hpath : t.path = Path.normalize path := Template.path_of_compile hcompile
    have hstoring : e.storing .templates ⟨t.path, revision.modified, t.toJson⟩ m.files =
        cache.store .templates ⟨t.path, revision.modified, Cache.Kind.toJson .templates t⟩
          m.files := by
      rw [storing, hcache]
      rfl
    rw [hstoring] at hasked ⊢
    obtain ⟨hreached, hopen, hat⟩ := hlies.of_store h.reached h.isOpen .templates
      ⟨t.path, revision.modified, Cache.Kind.toJson .templates t⟩
    refine h.remember hasked hreached hopen (fun x hx => hat x (hx _))
      (fun other time u hother hfound => ?_) fun revision' hclear hsource => ?_
    · exact (hlies.loadTemplate?_of_store h.reached hfound).resolve_right fun hsame =>
        hother (hsame.2.trans hpath)
    · rw [h.read_eq hclear, hsource] at hread
      cases hread
      exact ⟨rfl, hcompile⟩

theorem loadDictionary (language file : String) :
    e.Upkeep cache trail base m₀ (e.loadDictionary language file m).2 := by
  have hasked := h.asked.loadDictionary language file
  change e.Upkeep cache trail base m₀
    { m with files := (e.dictionaries.load e.cache language file m.files).2 }
  change e.Asked m₀ { m with files := (e.dictionaries.load e.cache language file m.files).2 }
    at hasked
  rcases e.dictionaries.files_load e.cache language file m.files with
    hsame | ⟨c, hc, key, dictionary, modified, hstored⟩
  · rw [hsame]
    exact h
  · cases hcache.symm.trans hc
    let entry : Cache.Entry Json := ⟨key, modified, Cache.Kind.toJson .dictionaries dictionary⟩
    obtain ⟨hreached, hopen, hat⟩ := hlies.of_store h.reached h.isOpen .dictionaries entry
    have hfound {path : String} {time : Nat} {t : Template}
        (hload : cache.loadTemplate? path time (cache.store .dictionaries entry m.files) = some t) :
        cache.loadTemplate? path time m.files = some t :=
      (hlies.loadTemplate?_of_store h.reached hload).resolve_right fun hsame => nomatch hsame.1
    rw [hstored, show cache.storeDictionary key dictionary modified m.files =
      cache.store .dictionaries entry m.files from rfl] at hasked ⊢
    generalize cache.store .dictionaries entry m.files = files at *
    exact
      { asked := hasked
        reached := hreached
        isOpen := hopen
        files := fun x hx => (hat x (hx _)).trans (h.files x hx)
        remembered := h.remembered
        cached := fun hclear hread hnew hload => h.cached hclear hread hnew (hfound hload) }

/-- Outside of the folder of cached templates, a load changes no file. -/
theorem at?_load (path : String) {x : String} (hx : ¬ IsWithin (kindPlace base .templates) x) :
    (e.load path m).2.files.at? x = m.files.at? x := by
  have hleaves := e.leaves_load path m
  generalize (e.load path m).2 = m' at hleaves
  cases hleaves with
  | same | found => rfl
  | compiled hread hcompile =>
    simp only [Engine.remember, storing, hcache]
    exact (hlies.of_store h.reached h.isOpen .templates _).2.2 x hx

end

end Upkeep

namespace KeepsApart

variable {cache : Cache} {trail : List String} {base : String}
  (h : e.KeepsApart cache trail base m₀ page)

include h

theorem isClear {other : Template} {file : String}
    (hoffers : e.Offers m₀ page other (.inclusion file)) :
    e.IsClear base (Path.normalize (Path.resolve other.path file)) := by
  intro root hsource x hx kind
  rw [Source.filePath, Path.normalize_normalize] at hx
  exact h.apart hoffers (.inclusion hsource) kind x hx

theorem upkeep (hcache : e.cache = some cache) (hcurrent : e.IsCurrent m₀) :
    e.Upkeep cache trail base m₀ m₀ where
  asked := .refl m₀
  reached := h.reached
  isOpen := h.isOpen
  files _ _ := rfl
  remembered _ hread hremembered := hcurrent _ _ _ hread (.inr ⟨_, hremembered⟩)
  cached _ hread _ hfound := hcurrent _ _ _ hread (.inl ⟨cache, hcache, hfound⟩)

/-- Loads of dictionaries are answered alike as long as all files but cached templates are the
same. -/
theorem loadDictionary_agree (hcache : e.cache = some cache) {other : Template} {file : String}
    {name source : Option String} (hoffers : e.Offers m₀ page other (.dictionary file name source))
    (language : String)
    (hfiles : Agree (fun x => ¬ IsWithin (kindPlace base .templates) x) m.files m'.files) :
    (e.loadDictionary language file m).1 = (e.loadDictionary language file m').1 ∧
      Agree (fun x => ¬ IsWithin (kindPlace base .templates) x)
        (e.loadDictionary language file m).2.files (e.loadDictionary language file m').2.files := by
  cases hdictionaries : e.dictionaries with
  | memory dictionaries =>
    unfold loadDictionary Dictionary.Source.load
    rw [hdictionaries]
    dsimp only
    split <;> exact ⟨rfl, hfiles⟩
  | folder root =>
    unfold loadDictionary Dictionary.Source.load
    rw [hdictionaries]
    refine loadFile_agree hfiles (fun key hkey x hx => ?_) fun c hc key x hx => ?_
    · exact h.apart hoffers (.dictionary hdictionaries hkey) .templates x hx
    · -- The way to an entry of a dictionary does not touch the templates.
      cases hcache.symm.trans hc
      obtain ⟨way, hway, hmem⟩ := hx
      cases (h.lies.way?_entryPath .dictionaries key).symm.trans hway
      rcases List.mem_cons.1 hmem with rfl | hthrough
      · exact Cache.not_isWithin_entryPlace (by decide)
      · rcases List.mem_append.1 hthrough with htrail | hkind
        · exact h.lies.outside .templates x htrail
        · exact List.mem_singleton.1 hkind ▸ Cache.not_isWithin_kindPlace (by decide)

/-- A cache that lies apart makes no difference. -/
theorem overlooks (hcache : e.cache = some cache) (hcurrent : e.IsCurrent m₀) (path : String) :
    e.Overlooks m₀ page path fun m m' =>
      e.Upkeep cache trail base m₀ m ∧ e.Upkeep cache trail base m₀ m' ∧
        Agree (fun x => ¬ IsWithin (kindPlace base .templates) x) m.files m'.files where
  start := ⟨h.upkeep hcache hcurrent, h.upkeep hcache hcurrent, fun _ _ => rfl⟩
  asked hpair := hpair.1.asked
  parsed hpair exprs :=
    ⟨{ hpair.1 with asked := hpair.1.asked.parsed exprs },
      { hpair.2.1 with asked := hpair.2.1.asked.parsed exprs }, hpair.2.2⟩
  more hpair := ⟨hpair.1.load hcache h.lies path, hpair.2.1, fun x hx =>
    (hpair.1.at?_load hcache h.lies path hx).trans (hpair.2.2 x hx)⟩
  load hpair path :=
    ⟨hpair.1.load hcache h.lies path, hpair.2.1.load hcache h.lies path, fun x hx =>
      ((hpair.1.at?_load hcache h.lies path hx).trans (hpair.2.2 x hx)).trans
        (hpair.2.1.at?_load hcache h.lies path hx).symm⟩
  answer hpair _ _ hoffers := by
    have hclear := h.isClear hoffers
    have hstart := (h.upkeep hcache hcurrent).load_eq hcache hclear
    exact ⟨(hpair.1.load_eq hcache hclear).trans hstart.symm,
      (hpair.2.1.load_eq hcache hclear).trans hstart.symm⟩
  compiled {_ _ compiled} hoffers hload := by
    have hdue := (h.upkeep hcache hcurrent).load_eq hcache (h.isClear hoffers)
    rw [hload] at hdue
    obtain ⟨text, htext⟩ := exists_compile_of_due hdue.symm
    exact ⟨_, _, text, htext⟩
  read hpair other file hoffers := by
    have hclear : e.IsClear base (Path.resolve other.path file) :=
      fun root hsource x hx kind => h.apart hoffers (.verbatim hsource) kind x hx
    exact (hpair.2.1.read_eq hclear).trans (hpair.1.read_eq hclear).symm
  dictionary {_ _} hpair {_ file _ _} hoffers language := by
    obtain ⟨hanswer, hfiles⟩ := h.loadDictionary_agree hcache hoffers language hpair.2.2
    exact ⟨hanswer.symm, hpair.1.loadDictionary hcache h.lies language file,
      hpair.2.1.loadDictionary hcache h.lies language file, hfiles⟩

end KeepsApart

section

variable {cache : Cache} {trail : List String} {base : String} (hlies : cache.LiesAt trail base)
  (hreached : cache.Reached trail base m.files)

include hlies hreached

/-- A cache lies apart from every page if it is neither around nor below the folders of templates
and dictionaries. -/
theorem keepsApart_of_roots (hopen : ∀ x ∈ trail, m.files.isFolderAt x)
    (hroots : ∀ root, e.source = .folder root ∨ e.dictionaries = .folder root →
      ∃ outer, Files.way? root = some outer ∧
        ∀ kind, (∀ x ∈ outer.places, ¬ IsWithin (kindPlace base kind) x) ∧
          ¬ outer.goal.toList <+: (kindPlace base kind).toList) (page : Template) :
    e.KeepsApart cache trail base m page where
  lies := hlies
  reached := hreached
  isOpen := hopen
  apart {_ _ path} _ hopens kind x := by
    rintro ⟨way, hway, hx⟩
    have hmade : ∃ root steps inner, (e.source = .folder root ∨ e.dictionaries = .folder root) ∧
        Path.IsMadeOf steps inner ∧ path = Path.within root inner := by
      cases hopens with
      | inclusion h | verbatim h => exact ⟨_, _, _, .inl h, Path.isMadeOf_normalize _, rfl⟩
      | dictionary h hkey =>
        obtain ⟨steps, hsteps, -⟩ := Path.isMadeOf_of_confine? hkey
        exact ⟨_, steps, _, .inr h, hsteps, rfl⟩
    obtain ⟨root, steps, inner, hroot, hsteps, rfl⟩ := hmade
    obtain ⟨outer, houter, hplaces⟩ := hroots root hroot
    exact Files.not_isWithin_of_isMadeOf (Cache.kindPlace_ne_top base kind) houter hsteps
      (hplaces kind).1 (hplaces kind).2 hway x hx

/-- An engine that remembers nothing is current if its cache has no templates. -/
theorem isCurrent_of_entries (hcache : e.cache = some cache) (hcompiled : m.compiled = [])
    (hentries : ∀ key, m.files.at? (cache.entryPlace base .templates key) = none) :
    e.IsCurrent m := by
  rintro path revision t - (⟨c, hc, hfound⟩ | ⟨serial, hremembered⟩)
  · cases hcache.symm.trans hc
    rw [Cache.loadTemplate?_eq_some_iff, hlies.file?_entryPath hreached, hentries] at hfound
    cases hfound
  · rw [hcompiled] at hremembered
    cases hremembered

end

/-- What is asked for a page is answered alike, however often a path is loaded besides: there is no
cache, or it lies apart from the page. -/
theorem exists_overlooks (hcurrent : e.IsCurrent m₀)
    (hcache : ∀ cache ∈ e.cache, ∃ trail base, e.KeepsApart cache trail base m₀ page)
    (path : String) : ∃ R, e.Overlooks m₀ page path R := by
  cases hsome : e.cache with
  | none =>
    exact ⟨_, (hcurrent.steady (admits_stays_of_none hsome)).overlooks page path⟩
  | some cache =>
    obtain ⟨trail, base, hapart⟩ := hcache cache hsome
    exact ⟨_, hapart.overlooks hsome hcurrent path⟩

end Engine

end XmlTemplate
