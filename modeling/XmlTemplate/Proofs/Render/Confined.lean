import XmlTemplate.Proofs.Files.Agree
import XmlTemplate.Proofs.Files.Descent
import XmlTemplate.Proofs.Render.Loads

/-!
# Renders stay below their roots

An engine opens three kinds of files: templates and dictionaries, each at a path that leads down
from its root, and entries of the cache. Whatever else is in the tree has no part in a render,
however deeply templates include each other: it gives the same in every tree where the places on the
ways to these files are the same, and leaves all other places as they are.
-/

namespace XmlTemplate

namespace Engine

/-- The paths of the files that an engine opens. -/
inductive Opens (e : Engine) : String → Prop
  | template {root path : String} {steps : List (List Char)} (h : e.source = .folder root)
      (hpath : Path.IsMadeOf steps path) : Opens e (Path.within root path)
  | dictionary {root path : String} {steps : List (List Char)} (h : e.dictionaries = .folder root)
      (hpath : Path.IsMadeOf steps path) : Opens e (Path.within root path)
  | entry {cache : Cache} (h : e.cache = some cache) (kind : Cache.Kind) (source : String) :
      Opens e (cache.entryPath kind source)

/-- The place lies on the way to a file that the engine opens. -/
def Sees (e : Engine) (x : String) : Prop := ∃ path, e.Opens path ∧ Files.IsOn path x

/-- The same is remembered, and the trees of files are the same as far as the engine sees them. -/
structure Alike (e : Engine) (m m' : Memory) : Prop where
  files : Files.Agree e.Sees m.files m'.files
  compiled : m.compiled = m'.compiled
  parsed : m.parsed = m'.parsed
  serial : m.serial = m'.serial

/-- The two answers are the same, and alike memories are left. -/
def AnswersAlike (e : Engine) (left right : α × Memory) : Prop :=
  left.1 = right.1 ∧ e.Alike left.2 right.2

/-- Answers that are alike are both results or both faults. -/
theorem AnswersAlike.elim {e : Engine} {left right : Except ε α × Memory}
    (h : e.AnswersAlike left right) :
    (∃ a m m', left = (.ok a, m) ∧ right = (.ok a, m') ∧ e.Alike m m') ∨
      ∃ fault m m', left = (.error fault, m) ∧ right = (.error fault, m') ∧ e.Alike m m' := by
  obtain ⟨answer, m⟩ := left
  obtain ⟨answer', m'⟩ := right
  obtain ⟨hanswer, hmemory⟩ := h
  cases hanswer
  cases answer with
  | ok a => exact .inl ⟨a, m, m', rfl, rfl, hmemory⟩
  | error fault => exact .inr ⟨fault, m, m', rfl, rfl, hmemory⟩

variable {e : Engine} {m m' : Memory} {files files' : Files} {path : String} {cache : Cache}

-- ---------------------------------------------------------------------------
-- Files
-- ---------------------------------------------------------------------------

theorem Opens.isOn (h : e.Opens path) : ∀ x, Files.IsOn path x → e.Sees x :=
  fun _ hx => ⟨path, h, hx⟩

theorem read_eq (h : Files.Agree e.Sees files files') (path : String) :
    e.source.read files path = e.source.read files' path := by
  cases hsource : e.source with
  | memory shelf => rfl
  | folder root =>
    have hopens : e.Opens (Path.within root (Path.normalize path)) :=
      .template hsource (Path.isMadeOf_normalize path)
    unfold Source.read Source.filePath
    dsimp only
    rw [h.file?_eq hopens.isOn]

section

variable {P : String → Prop} (h : Files.Agree P files files')

include h

theorem load?_eq (kind : Cache.Kind) (read? : Json.Draft → Option α) {source : String}
    (hentry : ∀ x, Files.IsOn (cache.entryPath kind source) x → P x) (modified : Nat) :
    cache.load? kind read? source modified files =
      cache.load? kind read? source modified files' := by
  simp only [Cache.load?, h.file?_eq hentry]

theorem agree_store (kind : Cache.Kind) (entry : Cache.Entry Json)
    (hentry : ∀ x, Files.IsOn (cache.entryPath kind entry.source) x → P x) :
    Files.Agree P (cache.store kind entry files) (cache.store kind entry files') :=
  (h.write? hentry (.document entry.toJson) entry.modified).getD h

end

/-- Storing an entry touches nothing that the engine does not see. -/
theorem at?_store (hcache : e.cache = some cache) (kind : Cache.Kind) (entry : Cache.Entry Json)
    {x : String} (hx : ¬ e.Sees x) : (cache.store kind entry files).at? x = files.at? x := by
  unfold Cache.store
  cases hwrite : files.write? (cache.entryPath kind entry.source) (.document entry.toJson)
      entry.modified with
  | none => rfl
  | some written =>
    obtain ⟨way, hway⟩ := Files.exists_way?_of_write? hwrite
    refine Files.at?_of_write? hwrite hway fun hmem => hx ?_
    exact (Opens.entry hcache kind entry.source).isOn x ⟨way, hway, hmem⟩

-- ---------------------------------------------------------------------------
-- Questions to the engine
-- ---------------------------------------------------------------------------

theorem Alike.remember (h : e.Alike m m') (path : String) (modified : Nat) (template : Template) :
    e.AnswersAlike (Engine.remember path modified template m)
      (Engine.remember path modified template m') := by
  unfold Engine.remember
  rw [AnswersAlike, h.serial, h.compiled]
  exact ⟨rfl, h.files, rfl, h.parsed, rfl⟩

/-- The files after an entry was stored, if there is a cache. -/
def storing (e : Engine) (kind : Cache.Kind) (entry : Cache.Entry Json) (files : Files) : Files :=
  match e.cache with
  | some cache => cache.store kind entry files
  | none => files

theorem agree_storing {P : String → Prop} (h : Files.Agree P files files') (kind : Cache.Kind)
    (entry : Cache.Entry Json) (hentry : ∀ cache ∈ e.cache, ∀ x,
      Files.IsOn (cache.entryPath kind entry.source) x → P x) :
    Files.Agree P (e.storing kind entry files) (e.storing kind entry files') := by
  unfold storing
  cases hcache : e.cache with
  | none => exact h
  | some cache => exact agree_store h kind entry (hentry cache hcache)

theorem loadRevision_eq (e : Engine) (path : String) (revision : Revision) (m : Memory) :
    e.loadRevision path revision m =
      match e.cache.bind fun cache => cache.loadTemplate? path revision.modified m.files with
      | some template =>
        ((.ok (Engine.remember path revision.modified template m).1),
          (Engine.remember path revision.modified template m).2)
      | none =>
        match e.compile path revision.text with
        | .error fault => (.error fault, m)
        | .ok template =>
          let entry := ⟨template.path, revision.modified, template.toJson⟩
          let stored := { m with files := e.storing .templates entry m.files }
          (.ok (Engine.remember path revision.modified template stored).1,
            (Engine.remember path revision.modified template stored).2) := rfl

theorem Alike.loadRevision (h : e.Alike m m') (path : String) (revision : Revision) :
    e.AnswersAlike (e.loadRevision path revision m) (e.loadRevision path revision m') := by
  have hcached : (e.cache.bind fun cache => cache.loadTemplate? path revision.modified m.files) =
      e.cache.bind fun cache => cache.loadTemplate? path revision.modified m'.files :=
    Option.bind_congr fun cache hcache => load?_eq h.files _ _ (Opens.entry hcache _ _).isOn _
  rw [loadRevision_eq, loadRevision_eq, hcached]
  split
  · obtain ⟨hcompiled, hmemory⟩ := h.remember path revision.modified ‹_›
    exact ⟨congrArg Except.ok hcompiled, hmemory⟩
  · split
    · exact ⟨rfl, h⟩
    · rename_i template _
      let entry : Cache.Entry Json := ⟨template.path, revision.modified, template.toJson⟩
      have hstored : e.Alike { m with files := e.storing .templates entry m.files }
          { m' with files := e.storing .templates entry m'.files } :=
        ⟨agree_storing h.files .templates entry fun _ hcache => (Opens.entry hcache _ _).isOn,
          h.compiled, h.parsed, h.serial⟩
      obtain ⟨hcompiled, hmemory⟩ := hstored.remember path revision.modified template
      exact ⟨congrArg Except.ok hcompiled, hmemory⟩

theorem Alike.load (h : e.Alike m m') (path : String) :
    e.AnswersAlike (e.load path m) (e.load path m') := by
  unfold Engine.load
  dsimp only
  rw [read_eq h.files, h.compiled]
  split
  · exact ⟨rfl, h⟩
  · split
    · split
      · exact ⟨rfl, h⟩
      · exact h.loadRevision _ _
    · exact h.loadRevision _ _

theorem loadFile_eq (e : Engine) (root language file : String) (files : Files) :
    Dictionary.Source.loadFile e.cache root language file files =
      match Path.confine? (Dictionary.Source.requested language file) with
      | none => (.error (.missingSource none (Dictionary.Source.requested language file)), files)
      | some key =>
        match files.file? (Path.within root key) with
        | none => (.error (.missingSource none (Path.within root key)), files)
        | some (content, modified) =>
          match e.cache.bind fun cache => cache.loadDictionary? key modified files with
          | some dictionary => (.ok dictionary, files)
          | none =>
            match Dictionary.parse file language content.shown with
            | .error fault => (.error fault, files)
            | .ok d => (.ok d, e.storing .dictionaries ⟨key, modified, d.toJson⟩ files) := by
  unfold Dictionary.Source.loadFile storing
  cases e.cache <;> rfl

/-- Dictionaries are loaded alike from trees that agree on the ways to the file and to its entry. -/
theorem loadFile_agree {P : String → Prop} {root language file : String}
    (h : Files.Agree P files files')
    (hfile : ∀ key, Path.confine? (Dictionary.Source.requested language file) = some key →
      ∀ x, Files.IsOn (Path.within root key) x → P x)
    (hentry : ∀ cache ∈ e.cache, ∀ key x, Files.IsOn (cache.entryPath .dictionaries key) x → P x) :
    (Dictionary.Source.loadFile e.cache root language file files).1 =
        (Dictionary.Source.loadFile e.cache root language file files').1 ∧
      Files.Agree P (Dictionary.Source.loadFile e.cache root language file files).2
        (Dictionary.Source.loadFile e.cache root language file files').2 := by
  rw [loadFile_eq, loadFile_eq]
  split
  · exact ⟨rfl, h⟩
  · rename_i key hkey
    rw [h.file?_eq (hfile key hkey)]
    split
    · exact ⟨rfl, h⟩
    · rename_i content modified _
      have hcached : (e.cache.bind fun cache => cache.loadDictionary? key modified files) =
          e.cache.bind fun cache => cache.loadDictionary? key modified files' :=
        Option.bind_congr fun cache hcache => load?_eq h _ _ (hentry cache hcache key) _
      rw [hcached]
      split
      · exact ⟨rfl, h⟩
      · split
        · exact ⟨rfl, h⟩
        · exact ⟨rfl, agree_storing h .dictionaries _ fun cache hcache => hentry cache hcache _⟩

theorem Alike.loadDictionary (h : e.Alike m m') (language file : String) :
    e.AnswersAlike (e.loadDictionary language file m) (e.loadDictionary language file m') := by
  cases hdictionaries : e.dictionaries with
  | memory dictionaries =>
    unfold Engine.loadDictionary Dictionary.Source.load
    rw [hdictionaries]
    dsimp only
    split
    · exact ⟨rfl, h⟩
    · exact ⟨rfl, h⟩
  | folder root =>
    have hfile (key : String)
        (hkey : Path.confine? (Dictionary.Source.requested language file) = some key) :
        ∀ x, Files.IsOn (Path.within root key) x → e.Sees x := by
      obtain ⟨steps, hsteps, -⟩ := Path.isMadeOf_of_confine? hkey
      exact (Opens.dictionary hdictionaries hsteps).isOn
    obtain ⟨hanswer, hfiles⟩ := loadFile_agree h.files hfile fun cache hcache key =>
      (Opens.entry hcache .dictionaries key).isOn
    unfold Engine.loadDictionary
    rw [hdictionaries]
    exact ⟨hanswer, hfiles, h.compiled, h.parsed, h.serial⟩

end Engine

-- ---------------------------------------------------------------------------
-- Steps
-- ---------------------------------------------------------------------------

namespace Render

variable {e : Engine}

/-- From alike memories the step comes to the same. -/
def RunsAlike (e : Engine) (x : Render α) : Prop :=
  ∀ s m m', e.Alike m m' → e.AnswersAlike (x s m) (x s m')

/-- The step neither looks at the memory nor changes it. -/
theorem runsAlike_of_eq {x : Render α} (f : Session → Except Stop (α × Session))
    (h : ∀ s m, x s m = (f s, m)) : RunsAlike e x := by
  intro s m m' hm
  rw [h, h]
  exact ⟨rfl, hm⟩

theorem runsAlike_consult {use : Memory → Except Fault α × Memory}
    (h : ∀ m m', e.Alike m m' → e.AnswersAlike (use m) (use m')) (place : Place) :
    RunsAlike e (consult place use) := by
  intro s m m' hm
  rw [consult_apply, consult_apply]
  obtain ⟨a, n, n', hleft, hright, hn⟩ | ⟨fault, n, n', hleft, hright, hn⟩ := (h m m' hm).elim
  · rw [hleft, hright]
    exact ⟨rfl, hn⟩
  · rw [hleft, hright]
    exact ⟨rfl, hn⟩

theorem runsAlike_composes (e : Engine) : Composes Render (RunsAlike e) where
  pure a := runsAlike_of_eq (fun s => .ok (a, s)) fun _ _ => rfl
  bind hx hf s m m' hm := by
    rw [bind_apply, bind_apply]
    obtain ⟨⟨a, t⟩, n, n', hleft, hright, hn⟩ | ⟨stop, n, n', hleft, hright, hn⟩ :=
      (hx s m m' hm).elim
    · rw [hleft, hright]
      exact hf a t n n' hn
    · rw [hleft, hright]
      exact ⟨rfl, hn⟩

theorem runsAlike_call (place : Place) (name : String) (args : List Value) :
    RunsAlike e (call e place name args) := by
  intro s m m' hm
  rw [call_apply, call_apply, function_apply, function_apply]
  cases s.functions.get? name with
  | some f =>
    dsimp only
    split
    · exact ⟨rfl, hm⟩
    · exact ⟨rfl, hm⟩
  | none =>
    cases e.function? name with
    | none => exact ⟨rfl, hm⟩
    | some f =>
      dsimp only
      split
      · exact ⟨rfl, hm⟩
      · exact ⟨rfl, hm⟩

theorem runsAlike_parse (place : Place) (source : String) : RunsAlike e (parse place source) := by
  intro s m m' hm
  rw [parse_apply, parse_apply, hm.parsed]
  split
  · exact ⟨rfl, hm⟩
  · split
    · exact ⟨rfl, hm.files, hm.compiled, rfl, hm.serial⟩
    · exact ⟨rfl, hm⟩

theorem runsAlike_basic (e : Engine) : Basic e (RunsAlike e) where
  toComposes := runsAlike_composes e
  environment place :=
    { lookup := fun key => runsAlike_of_eq (fun s => .ok (s.lookup key, s)) fun _ _ => rfl
      call := runsAlike_call place
      noText := runsAlike_of_eq _ fun _ _ => rfl }
  parse := runsAlike_parse
  failAt _ _ := runsAlike_of_eq _ fun _ _ => rfl
  get := runsAlike_of_eq (fun s => .ok (s, s)) fun _ _ => rfl
  set s := runsAlike_of_eq (fun _ => .ok ((), s)) fun _ _ => rfl
  load place path := runsAlike_consult (fun _ _ hm => hm.load path) place
  loadDictionary place language file :=
    runsAlike_consult (fun _ _ hm => hm.loadDictionary language file) place
  read place path :=
    runsAlike_consult (fun _ _ hm => ⟨Engine.read_eq hm.files path, hm⟩) place
  depth := runsAlike_of_eq (fun _ => .error .depth) fun _ _ => rfl

end Render

namespace Engine

variable {e : Engine} {m m' : Memory}

theorem Alike.render (h : e.Alike m m') (template : Template) (data : Value)
    (language : Option String) : e.AnswersAlike (e.render template data language m)
      (e.render template data language m') := by
  have hpage := (Render.runsAlike_basic e).page depthLimit template
    (Session.start data (language.or e.language)) m m' h
  unfold Engine.render renderWithin
  simp only [StateT.run]
  obtain ⟨⟨output, s⟩, n, n', hleft, hright, hn⟩ | ⟨stop, n, n', hleft, hright, hn⟩ := hpage.elim
  · rw [hleft, hright]
    exact ⟨rfl, hn⟩
  · rw [hleft, hright]
    exact ⟨rfl, hn⟩

/-- A file is rendered alike, with all that it includes. -/
theorem Alike.renderFile (h : e.Alike m m') (path : String) (data : Value)
    (language : Option String) : e.AnswersAlike (e.renderFile path data language m)
      (e.renderFile path data language m') := by
  unfold Engine.renderFile
  obtain ⟨compiled, n, n', hleft, hright, hn⟩ | ⟨fault, n, n', hleft, hright, hn⟩ :=
    (h.load path).elim
  · rw [hleft, hright]
    exact hn.render compiled.template data language
  · rw [hleft, hright]
    exact ⟨rfl, hn⟩

-- ---------------------------------------------------------------------------
-- Places that are left alone
-- ---------------------------------------------------------------------------

/-- Places that the engine does not see stay as they are. -/
def Spares (e : Engine) (m m' : Memory) : Prop :=
  ∀ x, ¬ e.Sees x → m'.files.at? x = m.files.at? x

theorem at?_storing (e : Engine) (kind : Cache.Kind) (entry : Cache.Entry Json) (files : Files)
    {x : String} (hx : ¬ e.Sees x) : (e.storing kind entry files).at? x = files.at? x := by
  unfold storing
  cases hcache : e.cache with
  | none => rfl
  | some cache => exact at?_store hcache kind entry hx

theorem spares_loadRevision (e : Engine) (path : String) (revision : Revision) (m : Memory) :
    e.Spares m (e.loadRevision path revision m).2 := by
  intro x hx
  rw [loadRevision_eq]
  split
  · rfl
  · split
    · rfl
    · exact at?_storing e _ _ _ hx

theorem admits_spares (e : Engine) : e.Admits e.Spares where
  refl _ _ _ := rfl
  trans h k x hx := (k x hx).trans (h x hx)
  load path m x hx := by
    unfold Engine.load
    dsimp only
    split
    · rfl
    · split
      · split
        · rfl
        · exact spares_loadRevision e _ _ m x hx
      · exact spares_loadRevision e _ _ m x hx
  loadDictionary language file m x hx := by
    unfold Engine.loadDictionary Dictionary.Source.load
    dsimp only
    split
    · split <;> rfl
    · rw [loadFile_eq]
      split
      · rfl
      · split
        · rfl
        · split
          · rfl
          · split
            · rfl
            · exact at?_storing e _ _ _ hx
  parsed _ _ _ _ := rfl

-- ---------------------------------------------------------------------------
-- Everything stays below
-- ---------------------------------------------------------------------------

/-- Paths are confined just if they never lead up from their root, and are normalized then. All
paths that templates and dictionaries are opened by are made of segments that lead down, so that the
ways to their files stay below the roots; nothing else in the tree has a part in a render, and
nothing else is changed by it. -/
theorem opens_below_root :
    (∀ path result, Path.confine? path = some result ↔ Path.isRooted path = false ∧
        Path.StaysBelow 0 (Path.segments path) ∧ result = Path.normalize path) ∧
      (∀ path result, Path.confine? path = some result → ∃ steps, Path.IsMadeOf steps result ∧
        Path.depth? 0 (Path.segments path) = some steps.length ∧
          steps.length + Path.climbs (Path.segments path) =
            Path.descents (Path.segments path)) ∧
      (∀ path, ∃ steps, Path.IsMadeOf steps (Path.normalize path)) ∧
      (∀ base relative, ∃ steps, Path.IsMadeOf steps (Path.resolve base relative)) ∧
      (∀ steps path, Path.IsMadeOf steps path → Path.normalize path = path) ∧
      (∀ root outer steps path, Files.way? root = some outer → Path.IsMadeOf steps path →
        ∃ way, Files.way? (Path.within root path) = some way ∧ Files.IsBelow outer steps way) ∧
      (∀ (e : Engine) m m', e.Alike m m' →
        (∀ path, e.AnswersAlike (e.load path m) (e.load path m')) ∧
        (∀ language file,
          e.AnswersAlike (e.loadDictionary language file m) (e.loadDictionary language file m')) ∧
        ∀ path data language, e.AnswersAlike (e.renderFile path data language m)
          (e.renderFile path data language m')) ∧
      ∀ (e : Engine) path data language m x, ¬ e.Sees x →
        (e.renderFile path data language m).2.files.at? x = m.files.at? x := by
  refine ⟨fun path result => Path.confine?_eq_some_iff, fun path result h => ?_,
    fun path => ⟨_, Path.isMadeOf_normalize path⟩, Path.exists_isMadeOf_resolve,
    fun steps path h => h.normalize_eq, fun root outer steps path hroot h =>
      Files.exists_isBelow hroot h, fun e m m' h => ?_, fun e path data language m x hx =>
        (admits_spares e).renderFile path data language m x hx⟩
  · obtain ⟨steps, hsteps, hdepth⟩ := Path.isMadeOf_of_confine? h
    have hcount := Path.depth?_add_climbs hdepth
    rw [Nat.zero_add] at hcount
    exact ⟨steps, hsteps, hdepth, hcount⟩
  · exact ⟨h.load, h.loadDictionary, h.renderFile⟩

/-- A tree of templates with a file beside them. -/
def treeBeside (text : String) : Files :=
  ⟨[("secret", .file (.text text) 1), ("templates", .folder),
    ("templates/page.xml", .file (.text "<p/>") 1)]⟩

/-- An engine on the templates of such a tree. -/
def besideEngine : Engine := { Engine.default with source := .folder "templates" }

theorem not_sees_secret : ¬ besideEngine.Sees "secret" := by
  have hnot (steps : List (List Char)) : "secret" ≠ Files.descend "templates" steps := by
    intro heq
    have hprefix := Files.prefix_descend "templates" steps
    rw [← heq] at hprefix
    exact absurd hprefix (by decide)
  rintro ⟨path, hopens, way, hway, hmem⟩
  cases hopens with
  | template hsource hpath =>
    cases hsource
    have hroot : Files.way? "templates" = some ⟨[""], "templates"⟩ := rfl
    obtain ⟨_, hway', hbelow⟩ := Files.exists_isBelow hroot hpath
    cases hway.symm.trans hway'
    rcases List.mem_cons.1 hmem with hgoal | hthrough
    · exact hnot _ (hgoal.trans hbelow.goal)
    · rcases hbelow.through _ hthrough with houter | ⟨k, hk⟩
      · simp [Files.Way.places] at houter
      · exact hnot _ hk
  | dictionary hdictionaries => cases hdictionaries
  | entry hcache => cases hcache

theorem agree_treeBeside (text text' : String) :
    Files.Agree besideEngine.Sees (treeBeside text) (treeBeside text') := by
  intro x hx
  have hne : ¬ "secret" = x := by
    rintro rfl
    exact not_sees_secret hx
  have hskip (text : String) : (treeBeside text).nodes.get? x =
      Table.get? x [("templates", .folder), ("templates/page.xml", .file (.text "<p/>") 1)] :=
    if_neg hne
  rw [Files.at?, Files.at?, hskip, hskip]

theorem alike_treeBeside (text text' : String) : besideEngine.Alike (.ofFiles (treeBeside text))
    (.ofFiles (treeBeside text')) :=
  ⟨agree_treeBeside text text', rfl, rfl, rfl⟩

/-- Whatever the file beside the templates holds, a template gives the same. -/
theorem opens_below_root_treeBeside :
    besideEngine.Alike (.ofFiles (treeBeside "a")) (.ofFiles (treeBeside "b")) ∧
      besideEngine.AnswersAlike
        (besideEngine.renderFile "page.xml" .null none (.ofFiles (treeBeside "a")))
        (besideEngine.renderFile "page.xml" .null none (.ofFiles (treeBeside "b"))) := by
  obtain ⟨-, -, -, -, -, -, halike, -⟩ := opens_below_root
  exact ⟨alike_treeBeside _ _, (halike _ _ _ (alike_treeBeside _ _)).2.2 _ _ _⟩

end Engine

end XmlTemplate
