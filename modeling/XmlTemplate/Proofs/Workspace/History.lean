import XmlTemplate.Proofs.Engine.Learn
import XmlTemplate.Workspace.Command

/-!
# Histories of a workspace

A workspace is used, its files are changed, and it is opened again with other configurations, while
its cache stays. The cache knows a compilation by its path and the time of its source alone: what is
loaded is what some engine of the history has compiled, or would have, of the source of this time.
It is the compilation of the present if no text and no lead have changed without a new time.
-/

namespace XmlTemplate

open Cache (Reached entryPlace_ne)

/-- A stored template that is read is the one that was stored. -/
def Template.IsExact (t : Template) : Prop :=
  ∀ t', Template.ofDraft? (.ofJson 1 t.toJson) = some t' → t' = t

/-- What is compiled of a text is read back, if its floats are. -/
theorem Template.isExact_of_compile {path lead text : String} {t : Template}
    (h : compile path lead text = .ok t) (hsize : text.toList.length < maxStored)
    (hfloats : ∀ f ∈ t.floats, f.isFinite ∧
      Json.Draft.read? (Json.floatText f) = some (.float f)) : t.IsExact := by
  intro t' hread
  rw [t.readsBack (upTo_of_compile h hsize) hfloats 1, Json.given] at hread
  split at hread
  · cases hread
    rfl
  · cases hread

-- ---------------------------------------------------------------------------
-- Commands
-- ---------------------------------------------------------------------------

namespace Workspace

variable {w : Workspace} {R : Memory → Memory → Prop} (h : w.engine.Admits R)

include h

theorem admits_render (template : String) (data language : Option String) (m : Memory) :
    R m (w.render template data language m).2 := by
  unfold render
  simp only
  split
  · exact h.refl m
  · exact h.renderFile template _ language m

theorem admits_compileFile (folder : String) (state : CompileReport × Memory)
    (file : String × Content × Nat) : R state.2 (w.compileFile folder state file).2 := by
  unfold compileFile
  simp only
  split
  · rename_i template _ _
    have hload := h.load template state.2
    split
    · rename_i heq
      rwa [heq] at hload
    · rename_i heq
      rwa [heq] at hload
  · exact h.refl _

theorem admits_compile (folder : Option String) (m : Memory) : R m (w.compile folder m).2 := by
  suffices hfold : ∀ (all : List (String × Content × Nat)) (inside : String)
      (state : CompileReport × Memory),
      R state.2 (all.foldl (w.compileFile inside) state).2 from hfold _ _ (⟨0, []⟩, m)
  intro all inside
  induction all with
  | nil => exact fun state => h.refl state.2
  | cons file rest ih =>
    exact fun state => h.trans (admits_compileFile h inside state file) (ih _)

omit h in
/-- Cleaning clears the cache, or there is none. -/
theorem memory_clean (w : Workspace) (m : Memory) : (w.clean m).2 = m ∨
    ∃ c ∈ w.engine.cache, (w.clean m).2 = { m with files := (c.clear m.files).1 } := by
  cases hcache : w.engine.cache with
  | none =>
    left
    simp only [clean, hcache]
  | some c =>
    refine .inr ⟨c, rfl, ?_⟩
    simp only [clean, hcache]
    split
    · rename_i heq
      rw [heq]
    · rename_i heq
      rw [heq]

end Workspace

-- ---------------------------------------------------------------------------
-- Desks
-- ---------------------------------------------------------------------------

/-- An opened workspace with what its engine remembers, the files included. -/
structure Desk where
  workspace : Workspace
  memory : Memory

namespace Desk

def engine (d : Desk) : Engine := d.workspace.engine

def files (d : Desk) : Files := d.memory.files

/-- What the source has at a path. -/
def read (d : Desk) (path : String) : Except Fault Revision := d.engine.source.read d.files path

/-- What is done at a desk. -/
inductive Action where
  /-- Write a file: a template, the configuration, data or an output. -/
  | write (path : String) (content : Content) (modified : Nat)
  | remove (path : String)
  /-- Open the workspace with its present configuration. -/
  | reopen (base : String) (config : Option String) (now : Int)
  | load (path : String)
  | compile (folder : Option String)
  | render (template : String) (data language : Option String)
  | clean
  /-- Forget what was loaded. -/
  | forget

/-- The desk after an action. What cannot be done changes nothing. -/
def run (d : Desk) : Action → Desk
  | .write path content modified =>
    { d with memory.files := (d.files.write? path content modified).getD d.files }
  | .remove path => { d with memory.files := (d.files.remove? path).getD d.files }
  | .reopen base config now =>
    match Workspace.start base config now d.files with
    | .ok w => ⟨w, .ofFiles d.files⟩
    | .error _ => d
  | .load path => { d with memory := (d.engine.load path d.memory).2 }
  | .compile folder => { d with memory := (d.workspace.compile folder d.memory).2 }
  | .render template data language =>
    { d with memory := (d.workspace.render template data language d.memory).2 }
  | .clean => { d with memory := (d.workspace.clean d.memory).2 }
  | .forget => { d with memory := d.memory.clear }

/-- The desk after some actions. -/
def after (d : Desk) (actions : List Action) : Desk := actions.foldl run d

/-- All desks from the first one to the one after all actions. -/
def passed (d : Desk) : List Action → List Desk
  | [] => [d]
  | action :: actions => d :: passed (d.run action) actions

/-- The action does not write where the entries of a cache lie. -/
def Action.IsApart (cache : Cache) (base : String) : Action → Prop
  | .write path _ _ => ∀ way, Files.way? path = some way →
      ∀ kind key, cache.entryPlace base kind key ∉ way.places
  | _ => True

theorem mem_passed_self (d : Desk) (actions : List Action) : d ∈ d.passed actions := by
  cases actions with
  | nil => exact List.mem_singleton_self d
  | cons action actions => exact List.mem_cons_self ..

theorem after_mem_passed (d : Desk) (actions : List Action) :
    d.after actions ∈ d.passed actions := by
  induction actions generalizing d with
  | nil => exact List.mem_singleton_self d
  | cons action actions ih => exact List.mem_cons_of_mem d (ih (d.run action))

/-- The engine is the one that opening the workspace makes of its configuration. -/
def IsOpened (d : Desk) : Prop :=
  ∃ now, d.engine = Workspace.engineOf Cache.digest now d.workspace.config

theorem IsOpened.run {d : Desk} (h : d.IsOpened) (action : Action) : (d.run action).IsOpened := by
  cases action with
  | reopen base config now =>
    simp only [Desk.run]
    split
    · rename_i w hstart
      unfold Workspace.start at hstart
      split at hstart
      · cases hstart
      · cases hstart
        exact ⟨now, rfl⟩
    · exact h
  | _ => exact h

theorem IsOpened.of_mem_passed {d x : Desk} (h : d.IsOpened) {actions : List Action}
    (hx : x ∈ d.passed actions) : x.IsOpened := by
  induction actions generalizing d with
  | nil => exact List.mem_singleton.1 hx ▸ h
  | cons action actions ih =>
    rcases List.mem_cons.1 hx with rfl | hx
    · exact h
    · exact ih (h.run action) hx

-- ---------------------------------------------------------------------------
-- One action
-- ---------------------------------------------------------------------------

variable {cache : Cache} {trail : List String} {base path : String}

/-- What a desk has of a path after an action: what was there, or what its engine has made. -/
def Gains (cache : Cache) (trail : List String) (base path : String) (d d' : Desk) : Prop :=
  cache.Reached trail base d.files → cache.Reached trail base d'.files ∧
    ∀ modified t, d'.memory.Has cache path modified t → d.memory.Has cache path modified t ∨
      d'.engine.Makes d'.files path modified t

theorem gains_of_learns {d : Desk} {m : Memory}
    (h : d.engine.Learns cache trail base path d.memory m) :
    Gains cache trail base path d { d with memory := m } :=
  fun hreached => ⟨h.reached hreached, fun _ _ => h.has hreached⟩

/-- Nothing is gained where the entries of the cache stay or go. -/
theorem gains_of_files {d d' : Desk}
    (hfiles : cache.Reached trail base d.files →
      cache.Reached trail base d'.files ∧ Cache.Drops cache d.files d'.files)
    (hcompiled : d'.memory.compiled = d.memory.compiled ∨ d'.memory.compiled = []) :
    Gains cache trail base path d d' := by
  intro hreached
  obtain ⟨hreached', hdrops⟩ := hfiles hreached
  refine ⟨hreached', fun modified t hhas => .inl ?_⟩
  rcases hhas with hstored | ⟨serial, hremembered⟩
  · left
    rw [Cache.loadTemplate?_eq_some_iff] at hstored ⊢
    rcases hdrops .templates path with hsame | hnone
    · exact hsame ▸ hstored
    · change Cache.entryOf? .templates (d'.files.file? _) = _ at hstored
      rw [hnone] at hstored
      cases hstored
  · rcases hcompiled with hsame | hnone
    · exact .inr ⟨serial, hsame ▸ hremembered⟩
    · rw [hnone] at hremembered
      cases hremembered

theorem gains_run (hlies : cache.LiesAt trail base) {d : Desk}
    (huses : d.engine.Uses cache base path) {action : Action} (hapart : action.IsApart cache base) :
    Gains cache trail base path d (d.run action) := by
  have hadmits := huses.admits hlies
  cases action with
  | write target content modified =>
    refine gains_of_files (fun hreached => ?_) (.inl rfl)
    simp only [run, files]
    cases hwrite : d.memory.files.write? target content modified with
    | none => exact ⟨hreached, .refl cache _⟩
    | some files' =>
      obtain ⟨way, hway⟩ := Files.exists_way?_of_write? hwrite
      obtain ⟨hreached', hsame⟩ :=
        hlies.of_write?_outside hreached hwrite hway (hapart way hway)
      exact ⟨hreached', fun kind key => .inl (hsame kind key)⟩
  | remove target =>
    refine gains_of_files (fun hreached => ?_) (.inl rfl)
    simp only [run, files]
    cases hremove : d.memory.files.remove? target with
    | none => exact ⟨hreached, .refl cache _⟩
    | some files' => exact hlies.drops_remove? hreached hremove
  | reopen folder config now =>
    simp only [run]
    split
    · exact gains_of_files (fun hreached => ⟨hreached, .refl cache _⟩) (.inr rfl)
    · exact gains_of_files (fun hreached => ⟨hreached, .refl cache _⟩) (.inl rfl)
  | load target => exact gains_of_learns (hadmits.load target d.memory)
  | compile folder => exact gains_of_learns (Workspace.admits_compile hadmits folder d.memory)
  | render template data language =>
    exact gains_of_learns (Workspace.admits_render hadmits template data language d.memory)
  | clean =>
    rcases Workspace.memory_clean d.workspace d.memory with hsame | ⟨c, hc, hcleared⟩
    · simp only [run, hsame]
      exact gains_of_files (fun hreached => ⟨hreached, .refl cache _⟩) (.inl rfl)
    · cases huses.only c hc
      simp only [run, hcleared]
      exact gains_of_files hlies.drops_clear (.inl rfl)
  | forget => exact gains_of_files (fun hreached => ⟨hreached, .refl cache _⟩) (.inr rfl)

-- ---------------------------------------------------------------------------
-- Histories
-- ---------------------------------------------------------------------------

/-- Some of the desks would compile a source of this time to the template. -/
def Compiles (desks : List Desk) (path : String) (modified : Nat) (t : Template) : Prop :=
  ∃ x ∈ desks, ∃ text, x.read path = .ok ⟨text, modified⟩ ∧ x.engine.compile path text = .ok t

/-- Compilations at a desk are those of a history. -/
structure IsFrom (cache : Cache) (trail : List String) (base path : String) (desks : List Desk)
    (d : Desk) : Prop where
  reached : cache.Reached trail base d.files
  has {modified : Nat} {t : Template} : d.memory.Has cache path modified t →
    Compiles desks path modified t

/-- The engine of a desk keeps to the cache, and no template at a path is read back as another. -/
structure IsSound (cache : Cache) (base path : String) (d : Desk) : Prop where
  uses : d.engine.Uses cache base path
  isExact {revision : Revision} {t : Template} : d.read path = .ok revision →
    d.engine.compile path revision.text = .ok t → t.IsExact

theorem IsFrom.run (hlies : cache.LiesAt trail base) {desks : List Desk} {d : Desk}
    (h : IsFrom cache trail base path desks d) (huses : d.engine.Uses cache base path)
    {action : Action} (hapart : action.IsApart cache base) (hmem : d.run action ∈ desks)
    (hsound : IsSound cache base path (d.run action)) :
    IsFrom cache trail base path desks (d.run action) := by
  obtain ⟨hreached, hgains⟩ := gains_run hlies huses hapart h.reached
  refine ⟨hreached, fun {modified t} hhas => ?_⟩
  rcases hgains modified t hhas with hhas | ⟨text, compiled, hread, hcompile, heq⟩
  · exact h.has hhas
  · have ht : t = compiled := heq.elim id (hsound.isExact hread hcompile t)
    exact ⟨_, hmem, text, hread, ht ▸ hcompile⟩

theorem IsFrom.after (hlies : cache.LiesAt trail base) {desks : List Desk} {d : Desk}
    {actions : List Action} (h : IsFrom cache trail base path desks d)
    (hapart : ∀ action ∈ actions, action.IsApart cache base)
    (hdesks : ∀ x ∈ d.passed actions, x ∈ desks ∧ IsSound cache base path x) :
    IsFrom cache trail base path desks (d.after actions) := by
  induction actions generalizing d with
  | nil => exact h
  | cons action actions ih =>
    obtain ⟨haction, hactions⟩ := List.forall_mem_cons.1 hapart
    obtain ⟨⟨-, hd⟩, hnext⟩ := List.forall_mem_cons.1 hdesks
    obtain ⟨hmem, hsound⟩ := hnext _ (mem_passed_self (d.run action) actions)
    exact ih (h.run hlies hd.uses haction hmem hsound) hactions hnext

/-- What is loaded was compiled at some desk, or is at this one. -/
theorem IsFrom.load {key : String} {desks : List Desk} {d : Desk}
    (h : IsFrom cache trail base (Path.normalize key) desks d) (hmem : d ∈ desks)
    (huses : d.engine.Uses cache base (Path.normalize key)) {revision : Revision}
    (hread : d.read (Path.normalize key) = .ok revision) :
    ∃ x ∈ desks, ∃ text, x.read (Path.normalize key) = .ok ⟨text, revision.modified⟩ ∧
      (d.engine.load key d.memory).1.map Compiled.template =
        x.engine.compile (Path.normalize key) text := by
  rcases huses.load_eq hread with ⟨t, hload, hhas⟩ | hload
  · obtain ⟨x, hx, text, htext, hcompile⟩ := h.has hhas
    exact ⟨x, hx, text, htext, hload.trans hcompile.symm⟩
  · exact ⟨d, hmem, revision.text, hread, hload⟩

/-- What a configuration says of the cache and of the place of a template. -/
structure Settles (folder base path : String) (c : Config) : Prop where
  cacheFolder : ∀ f ∈ c.cacheFolder, f = folder
  apart : ∀ way, Files.way? (Source.filePath c.templateRoot path) = some way →
    ∀ kind key, way.goal ≠ Cache.entryPlace ⟨folder, Cache.digest⟩ base kind key

theorem Settles.uses {folder : String} {d : Desk}
    (h : Settles folder base path d.workspace.config) (hopened : d.IsOpened) :
    d.engine.Uses ⟨folder, Cache.digest⟩ base path := by
  obtain ⟨now, hengine⟩ := hopened
  rw [hengine]
  constructor
  · intro c hc
    obtain ⟨f, hf, rfl⟩ := Option.map_eq_some_iff.1 hc
    rw [h.cacheFolder f hf]
  · intro root way hroot
    cases hroot
    exact h.apart way

/-- After any history of a workspace whose cache stays in its folder, loading a template fails if
its source cannot be read. Else it comes to what the source of some desk of the history, of the same
time as the present one, is compiled to with the lead of that desk. This is the compilation of the
present source with the present lead, if no desk had another text or another lead at this time. -/
theorem load_after_compiles (d : Desk) (actions : List Action) (key : String) {folder : String}
    (hlies : Cache.LiesAt ⟨folder, Cache.digest⟩ trail base) (hopened : d.IsOpened)
    (hcompiled : d.memory.compiled = [])
    (hentries : ∀ kind source,
      d.files.at? (Cache.entryPlace ⟨folder, Cache.digest⟩ base kind source) = none)
    (hapart : ∀ action ∈ actions, action.IsApart ⟨folder, Cache.digest⟩ base)
    (hsettles : ∀ x ∈ d.passed actions,
      Settles folder base (Path.normalize key) x.workspace.config)
    (hexact : ∀ x ∈ d.passed actions, ∀ revision t,
      x.read (Path.normalize key) = .ok revision →
        x.engine.compile (Path.normalize key) revision.text = .ok t → t.IsExact) :
    let last := d.after actions
    let loaded := (last.engine.load key last.memory).1.map Compiled.template
    (∀ fault, last.read (Path.normalize key) = .error fault → loaded = .error fault) ∧
    ∀ revision, last.read (Path.normalize key) = .ok revision →
      (∃ x ∈ d.passed actions, ∃ text,
        x.read (Path.normalize key) = .ok ⟨text, revision.modified⟩ ∧
          loaded = Template.compile (Path.normalize key) x.engine.lead text) ∧
      ((∀ x ∈ d.passed actions, ∀ text,
        x.read (Path.normalize key) = .ok ⟨text, revision.modified⟩ →
          text = revision.text ∧ x.engine.lead = last.engine.lead) →
        loaded = Template.compile (Path.normalize key) last.engine.lead revision.text) := by
  intro last loaded
  have hsound : ∀ x ∈ d.passed actions,
      IsSound ⟨folder, Cache.digest⟩ base (Path.normalize key) x := fun x hx =>
    ⟨(hsettles x hx).uses (hopened.of_mem_passed hx), hexact x hx _ _⟩
  have hreached : Reached ⟨folder, Cache.digest⟩ trail base d.files := by
    intro kind source hsome
    rw [hentries] at hsome
    cases hsome
  have hstart : IsFrom ⟨folder, Cache.digest⟩ trail base (Path.normalize key)
      (d.passed actions) d := by
    refine ⟨hreached, fun {modified t} hhas => ?_⟩
    rcases hhas with hstored | ⟨serial, hremembered⟩
    · have hfile := hlies.file?_entryPath hreached .templates (Path.normalize key)
      rw [hentries] at hfile
      have hentry := Cache.loadTemplate?_eq_some_iff.1 hstored
      change Cache.entryOf? .templates (d.files.file? _) = _ at hentry
      rw [hfile] at hentry
      cases hentry
    · rw [hcompiled] at hremembered
      cases hremembered
  have hlast := hstart.after hlies hapart fun x hx => ⟨hx, hsound x hx⟩
  have hmem := after_mem_passed d actions
  refine ⟨fun fault hread => ?_, fun revision hread => ?_⟩
  · simp only [loaded, Engine.load_eq_error hread]
    rfl
  · obtain ⟨x, hx, text, htext, hload⟩ := hlast.load hmem (hsound _ hmem).uses hread
    refine ⟨⟨x, hx, text, htext, hload⟩, fun hsame => ?_⟩
    obtain ⟨rfl, hlead⟩ := hsame x hx text htext
    exact hlead ▸ hload

/-- A configuration with a lead and a cache. -/
def leadText (lead : String) : String := "namespace: '" ++ lead ++ "'\ncache_dir: c\n"

/-- A page with a text for each of two leads. -/
def twoLeads : String := "<p a:text=\"1\" b:text=\"2\"/>"

/-- A workspace with the first of the leads. -/
def firstLead : Desk :=
  let c := { Config.default with lead := "a:", cacheFolder := some "c" }
  ⟨⟨c, Workspace.engineOf Cache.digest 0 c⟩, .ofFiles ⟨[
    ("figdice.yml", .file (.text (leadText "a:")) 1), ("page.xml", .file (.text twoLeads) 1)]⟩⟩

/-- The page is loaded, and the workspace is opened again with the other lead. -/
def otherLead : List Action :=
  [.load "page.xml", .write "figdice.yml" (.text (leadText "b:")) 2, .reopen "" none 0]

theorem of_mem_passed_otherLead : ∀ x ∈ firstLead.passed otherLead,
    x.workspace.config.cacheFolder = some "c" ∧ x.workspace.config.templateRoot = "." ∧
      (x.engine.lead = "a:" ∨ x.engine.lead = "b:") ∧ x.read "page.xml" = .ok ⟨twoLeads, 1⟩ := by
  have hpassed : (firstLead.passed otherLead).all fun x =>
      x.workspace.config.cacheFolder == some "c" && x.workspace.config.templateRoot == "." &&
        (x.engine.lead == "a:" || x.engine.lead == "b:") &&
          (x.read "page.xml").toOption == some ⟨twoLeads, 1⟩ := by
    decide +kernel
  intro x hx
  have hall := List.all_eq_true.1 hpassed x hx
  simp only [Bool.and_eq_true, Bool.or_eq_true, beq_iff_eq] at hall
  obtain ⟨⟨⟨hcache, hroot⟩, hlead⟩, hoption⟩ := hall
  exact ⟨hcache, hroot, hlead, Outcome.of_toOption hoption⟩

/-- The page is loaded as it was compiled with the first lead, though the second one is in use. -/
theorem load_after_compiles_otherLead :
    let last := firstLead.after otherLead
    let loaded := (last.engine.load "page.xml" last.memory).1.map Compiled.template
    (∃ x ∈ firstLead.passed otherLead, ∃ text, x.read "page.xml" = .ok ⟨text, 1⟩ ∧
      loaded = Template.compile "page.xml" x.engine.lead text) ∧
    last.engine.lead = "b:" ∧ loaded.toOption.map (·.lead) = some "a:" := by
  intro last loaded
  obtain ⟨trail, base, hlies⟩ : ∃ trail base, Cache.LiesAt ⟨"c", Cache.digest⟩ trail base :=
    Cache.exists_liesAt Cache.slash_notMem_digest (by decide)
  have hne := entryPlace_ne ⟨"c", Cache.digest⟩ base
  have hentries (kind source) :
      firstLead.files.at? (Cache.entryPlace ⟨"c", Cache.digest⟩ base kind source) = none := by
    have htop := hne kind source "" (by decide)
    have hroot := hne kind source "/" (by decide)
    have hconfig := (hne kind source "figdice.yml" (by decide)).symm
    have hpage := (hne kind source "page.xml" (by decide)).symm
    simp [Desk.files, firstLead, Memory.ofFiles, Files.at?, Table.get?, htop, hroot, hconfig, hpage]
  have hapart : ∀ action ∈ otherLead, action.IsApart ⟨"c", Cache.digest⟩ base := by
    have hway : Files.way? "figdice.yml" = some ⟨[""], "figdice.yml"⟩ := rfl
    refine List.forall_mem_cons.2 ⟨trivial, List.forall_mem_cons.2 ⟨?_, List.forall_mem_cons.2
      ⟨trivial, List.forall_mem_nil _⟩⟩⟩
    intro way hway' kind source hmem
    cases hway.symm.trans hway'
    rcases List.mem_cons.1 hmem with heq | hmem
    · exact hne kind source _ (by decide) heq
    · exact hne kind source _ (by decide) (List.mem_singleton.1 hmem)
  have hsettles : ∀ x ∈ firstLead.passed otherLead,
      Settles "c" base "page.xml" x.workspace.config := by
    intro x hx
    obtain ⟨hcache, hroot, -⟩ := of_mem_passed_otherLead x hx
    refine ⟨fun f hf => ?_, fun way hway kind source => ?_⟩
    · rw [hcache] at hf
      exact (Option.some.inj hf).symm
    · have hgoal : Files.way? (Source.filePath "." "page.xml") = some ⟨["", ""], "page.xml"⟩ := rfl
      rw [hroot] at hway
      cases hgoal.symm.trans hway
      exact (hne kind source _ (by decide)).symm
  have hexact : ∀ x ∈ firstLead.passed otherLead, ∀ revision t,
      x.read "page.xml" = .ok revision → x.engine.compile "page.xml" revision.text = .ok t →
        t.IsExact := by
    intro x hx revision t hrevision hcompile
    obtain ⟨-, -, hlead, hread⟩ := of_mem_passed_otherLead x hx
    cases hread.symm.trans hrevision
    have hfloats : (x.engine.compile "page.xml" twoLeads).toOption.all (·.floats.isEmpty) := by
      simp only [Engine.compile]
      rcases hlead with hlead | hlead <;> rw [hlead] <;> decide +kernel
    rw [hcompile] at hfloats
    have hnone : t.floats = [] := List.isEmpty_iff.1 hfloats
    exact Template.isExact_of_compile hcompile (by decide) (by simp [hnone])
  have hresult := load_after_compiles firstLead otherLead "page.xml" hlies ⟨0, rfl⟩ rfl hentries
    hapart hsettles hexact
  have hread := (of_mem_passed_otherLead last (after_mem_passed _ _)).2.2.2
  exact ⟨(hresult.2 _ hread).1, by decide +kernel, by decide +kernel⟩

end Desk

end XmlTemplate
