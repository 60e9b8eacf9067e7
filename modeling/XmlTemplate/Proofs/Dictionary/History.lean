import XmlTemplate.Dictionary.Source
import XmlTemplate.Proofs.Cache.Entry
import XmlTemplate.Proofs.Cache.Payload

/-!
# Histories of a folder of dictionaries

A folder of dictionaries is asked through a cache, while its files change. The cache knows a
dictionary by its normalized path and the time of its file alone, but what it holds was read under
the language and the file of the request that stored it. So a load comes to what some request for
this path, of a file of the same time, was answered with; it comes to what is loaded without a cache
just if that request was spelled as the present one.
-/

namespace XmlTemplate

open Cache (Reached entryOf? entryIn? entryPlace_ne)

namespace Dictionary

-- ---------------------------------------------------------------------------
-- Names in dictionaries
-- ---------------------------------------------------------------------------

/-- The dictionary under another language and file. -/
def under (language file : String) (d : Dictionary) : Dictionary := { d with file, language }

theorem insert_under (language file : String) (d : Dictionary) (o : String × String) :
    (d.insert o).under language file = (d.under language file).insert o :=
  apply_ite (under language file) ..

theorem ofOccurrences_under (language file language' file' : String)
    (occurrences : List (String × String)) :
    (ofOccurrences file' language' occurrences).under language file =
      ofOccurrences file language occurrences :=
  (List.foldl_hom (under language file) (fun d o => (insert_under language file d o).symm)).symm

/-- A text that is read is read alike whatever its file is called. -/
theorem occurrences_of_file {format : Format} {file text : String}
    {found : List (String × String)} (h : occurrences format file text = .ok found)
    (file' : String) : occurrences format file' text = .ok found := by
  have htree (tree : Option Json) (h : occurrencesOfTree file tree = .ok found) :
      occurrencesOfTree file' tree = .ok found := by
    unfold occurrencesOfTree at h ⊢
    split at h
    · cases h
    · exact h
    · exact h
    · cases h
  cases format with
  | xml =>
    unfold occurrences at h ⊢
    dsimp only at h ⊢
    split at h
    · cases h
    · exact h
  | json => exact htree _ h
  | yaml => exact htree _ h

variable {language file language' file' text : String} {d : Dictionary}

/-- Of the file that it is read for, a dictionary takes the format and the name. -/
theorem parse_under (h : parse file language text = .ok d)
    (hformat : Format.ofFile file = .ofFile file') :
    parse file' language' text = .ok (d.under language' file') := by
  unfold parse at h ⊢
  cases hfound : occurrences (.ofFile file) file text with
  | error fault =>
    rw [hfound] at h
    cases h
  | ok found =>
    rw [hfound] at h
    cases h
    rw [← hformat, occurrences_of_file hfound file', ofOccurrences_under]
    rfl

theorem under_of_parse (h : parse file language text = .ok d) : d.under language file = d :=
  Except.ok.inj ((parse_under h rfl).symm.trans h)

/-- Dictionaries that are read for other requests are other ones. -/
theorem parse_eq_parse_iff (h : parse file language text = .ok d) :
    parse file language text = parse file' language' text ↔
      language = language' ∧ file = file' := by
  constructor
  · intro heq
    have hown := under_of_parse h
    have hother := under_of_parse (heq.symm.trans h)
    rw [← hother] at hown
    exact ⟨congrArg Dictionary.language hown, congrArg Dictionary.file hown⟩
  · rintro ⟨rfl, rfl⟩
    rfl

end Dictionary

-- ---------------------------------------------------------------------------
-- Stored dictionaries
-- ---------------------------------------------------------------------------

namespace Cache

variable {cache : Cache} {key : String} {modified : Nat} {files files' : Files} {d : Dictionary}

theorem loadDictionary?_eq_some_iff : cache.loadDictionary? key modified files = some d ↔
    entryOf? .dictionaries (files.file? (cache.entryPath .dictionaries key)) =
      some ⟨key, modified, d⟩ :=
  load?_eq_some_iff

/-- What can be loaded from fewer entries could be loaded before. -/
theorem Drops.loadDictionary? (h : Drops cache files files')
    (hload : cache.loadDictionary? key modified files' = some d) :
    cache.loadDictionary? key modified files = some d := by
  rw [loadDictionary?_eq_some_iff] at hload ⊢
  rcases h .dictionaries key with hsame | hnone
  · exact hsame ▸ hload
  · rw [hnone] at hload
    cases hload

/-- Storing a dictionary lets nothing else be loaded that was not there. -/
theorem LiesAt.of_storeDictionary {trail : List String} {base : String}
    (h : cache.LiesAt trail base) (hreached : cache.Reached trail base files)
    (hread : Dictionary.ofDraft? (.ofJson 1 d.toJson) = some d) :
    cache.Reached trail base (cache.storeDictionary key d modified files) ∧
      ∀ key' modified' d',
        cache.loadDictionary? key' modified' (cache.storeDictionary key d modified files) =
            some d' →
          cache.loadDictionary? key' modified' files = some d' ∨
            key' = key ∧ modified' = modified ∧ d' = d := by
  unfold storeDictionary store
  cases hwrite : files.write? (cache.entryPath .dictionaries key)
      (.document (Entry.toJson ⟨key, modified, d.toJson⟩)) modified with
  | none => exact ⟨hreached, fun _ _ _ => .inl⟩
  | some files' =>
    obtain ⟨hreached', hfile⟩ := h.of_write?_entry hreached hwrite
    refine ⟨hreached', fun key' modified' d' hload => ?_⟩
    rw [Option.getD_some, loadDictionary?_eq_some_iff, hfile] at hload
    split at hload
    · right
      have hentry := (entryIn?_toJson .dictionaries key modified d.toJson).symm.trans hload
      split at hentry
      · rw [show Kind.ofDraft? .dictionaries (.ofJson 1 d.toJson) = some d from hread] at hentry
        cases hentry
        exact ⟨rfl, rfl, rfl⟩
      · cases hentry
    · exact .inl (loadDictionary?_eq_some_iff.2 hload)

end Cache

namespace Dictionary

/-- What is read of a text is read back once it is stored. -/
theorem ofDraft?_of_parse {file language text : String} {d : Dictionary}
    (h : parse file language text = .ok d) : ofDraft? (.ofJson 1 d.toJson) = some d := by
  rw [(readsBack (nodup_of_parse h)).eq_ite (by decide), nesting_toJson]
  rfl

-- ---------------------------------------------------------------------------
-- Requests
-- ---------------------------------------------------------------------------

/-- A dictionary is asked for, with the files as they are then. -/
structure Request where
  language : String
  file : String
  files : Files

namespace Request

/-- The request is for the dictionary at a normalized path. -/
def Names (key : String) (r : Request) : Prop :=
  Path.confine? (Source.requested r.language r.file) = some key

/-- Text and time of the file at a path below the folder. -/
def source? (root key : String) (r : Request) : Option (String × Nat) :=
  (r.files.file? (Path.within root key)).map fun (content, modified) => (content.shown, modified)

/-- The text, read for the request. -/
def parse (text : String) (r : Request) : Except Fault Dictionary :=
  Dictionary.parse r.file r.language text

/-- Answer and files after loading. -/
def load (cache : Option Cache) (root : String) (r : Request) : Except Fault Dictionary × Files :=
  Source.loadFile cache root r.language r.file r.files

variable {root key text : String} {modified : Nat} {r : Request}

/-- Without a file to read, loading fails and changes nothing, whatever the cache is. -/
theorem exists_load_eq_error (h : ∀ key, r.Names key → r.source? root key = none) :
    ∃ fault, ∀ cache, r.load cache root = (.error fault, r.files) := by
  unfold load Source.loadFile
  cases hkey : Path.confine? (Source.requested r.language r.file) with
  | none => exact ⟨_, fun _ => rfl⟩
  | some key =>
    have hnone := h key hkey
    rw [source?, Option.map_eq_none_iff] at hnone
    refine ⟨.missingSource none (Path.within root key), fun cache => ?_⟩
    dsimp only
    rw [hnone]

/-- With a file to read, the cache is asked for the path and the time first. -/
theorem load_of_source? (hkey : r.Names key) (htext : r.source? root key = some (text, modified))
    (cache : Option Cache) : r.load cache root =
      match cache.bind fun cache => cache.loadDictionary? key modified r.files with
      | some d => (.ok d, r.files)
      | none =>
        match r.parse text with
        | .error fault => (.error fault, r.files)
        | .ok d =>
          (.ok d, (cache.map fun cache => cache.storeDictionary key d modified r.files).getD
            r.files) := by
  obtain ⟨⟨content, time⟩, hfile, heq⟩ := Option.map_eq_some_iff.1 htext
  cases heq
  unfold load Source.loadFile
  rw [show Path.confine? (Source.requested r.language r.file) = some key from hkey]
  dsimp only
  rw [hfile]
  cases cache with
  | none => rfl
  | some cache =>
    dsimp only [Option.map_some, Option.getD_some]
    rfl

theorem load_none (hkey : r.Names key) (htext : r.source? root key = some (text, modified)) :
    (r.load none root).1 = r.parse text := by
  rw [load_of_source? hkey htext]
  dsimp only [Option.bind_none]
  cases r.parse text <;> rfl

/-- What can be read for the request of a file as it was at a time. -/
def Reads (root key : String) (modified : Nat) (answer : Except Fault Dictionary) (r : Request) :
    Prop :=
  r.Names key ∧ ∃ text, r.source? root key = some (text, modified) ∧ r.parse text = answer

/-- A request stores what it reads, or it leaves all files alone. -/
theorem files_load (cache : Cache) (root : String) (r : Request) :
    (r.load (some cache) root).2 = r.files ∨ ∃ key modified d,
      r.Reads root key modified (.ok d) ∧
        (r.load (some cache) root).2 = cache.storeDictionary key d modified r.files := by
  by_cases hnone : ∀ key, r.Names key → r.source? root key = none
  · obtain ⟨fault, hload⟩ := exists_load_eq_error hnone
    exact .inl (congrArg Prod.snd (hload (some cache)))
  · simp only [not_forall] at hnone
    obtain ⟨key, hkey, hsome⟩ := hnone
    obtain ⟨⟨text, modified⟩, htext⟩ := Option.ne_none_iff_exists'.1 hsome
    rw [load_of_source? hkey htext]
    dsimp only [Option.bind_some, Option.map_some, Option.getD_some]
    split
    · exact .inl rfl
    · split
      · exact .inl rfl
      · rename_i d hparse
        refine .inr ⟨key, modified, d, ⟨hkey, text, htext, hparse⟩, ?_⟩
        dsimp only

end Request

-- ---------------------------------------------------------------------------
-- Visits
-- ---------------------------------------------------------------------------

/-- What happens to a folder of dictionaries and to its cache. -/
inductive Visit where
  | load (language file : String)
  | write (path : String) (content : Content) (modified : Nat)
  | remove (path : String)
  /-- Clear the cache. -/
  | clear

namespace Visit

/-- The request of a visit. -/
def request? (files : Files) : Visit → Option Request
  | load language file => some ⟨language, file, files⟩
  | _ => none

/-- The files after a visit. What cannot be done changes nothing. -/
def run (cache : Cache) (root : String) (files : Files) : Visit → Files
  | load language file => (Request.load (some cache) root ⟨language, file, files⟩).2
  | write path content modified => (files.write? path content modified).getD files
  | remove path => (files.remove? path).getD files
  | clear => (cache.clear files).1

/-- The visit does not write where the entries of a cache lie. -/
def IsApart (cache : Cache) (base : String) : Visit → Prop
  | write path _ _ => ∀ way, Files.way? path = some way →
      ∀ kind key, cache.entryPlace base kind key ∉ way.places
  | _ => True

end Visit

/-- The files after some visits. -/
def after (cache : Cache) (root : String) (files : Files) (visits : List Visit) : Files :=
  visits.foldl (Visit.run cache root) files

/-- The requests of some visits. -/
def requests (cache : Cache) (root : String) (files : Files) : List Visit → List Request
  | [] => []
  | visit :: visits =>
    (visit.request? files).toList ++ requests cache root (visit.run cache root files) visits

variable {cache : Cache} {trail : List String} {base root : String} {asked : List Request}
  {files files' : Files}

/-- What can be loaded from the cache was read for requests. -/
structure IsFrom (cache : Cache) (trail : List String) (base root : String) (asked : List Request)
    (files : Files) : Prop where
  reached : cache.Reached trail base files
  reads {key : String} {modified : Nat} {d : Dictionary} :
    cache.loadDictionary? key modified files = some d →
      ∃ r ∈ asked, r.Reads root key modified (.ok d)

theorem IsFrom.drops (h : IsFrom cache trail base root asked files)
    (hdrops : cache.Reached trail base files' ∧ Cache.Drops cache files files') :
    IsFrom cache trail base root asked files' :=
  ⟨hdrops.1, fun hload => h.reads (hdrops.2.loadDictionary? hload)⟩

theorem IsFrom.load (hlies : cache.LiesAt trail base) {r : Request} (hmem : r ∈ asked)
    (h : IsFrom cache trail base root asked r.files) :
    IsFrom cache trail base root asked (r.load (some cache) root).2 := by
  rcases r.files_load cache root with hsame | ⟨key, modified, d, hreads, hstored⟩
  · rw [hsame]
    exact h
  · have hread : ofDraft? (.ofJson 1 d.toJson) = some d := by
      obtain ⟨-, text, -, hparse⟩ := hreads
      exact ofDraft?_of_parse hparse
    obtain ⟨hreached, hload⟩ := hlies.of_storeDictionary h.reached hread
    rw [hstored]
    refine ⟨hreached, fun {key' modified' d'} hload' => ?_⟩
    rcases hload key' modified' d' hload' with hbefore | ⟨rfl, rfl, rfl⟩
    · exact h.reads hbefore
    · exact ⟨r, hmem, hreads⟩

theorem IsFrom.run (hlies : cache.LiesAt trail base)
    (h : IsFrom cache trail base root asked files) {visit : Visit}
    (hmem : ∀ r ∈ visit.request? files, r ∈ asked) (hapart : visit.IsApart cache base) :
    IsFrom cache trail base root asked (visit.run cache root files) := by
  cases visit with
  | load language file => exact IsFrom.load (r := ⟨language, file, files⟩) hlies (hmem _ rfl) h
  | write path content modified =>
    simp only [Visit.run]
    cases hwrite : files.write? path content modified with
    | none => exact h
    | some files' =>
      obtain ⟨way, hway⟩ := Files.exists_way?_of_write? hwrite
      obtain ⟨hreached, hsame⟩ := hlies.of_write?_outside h.reached hwrite hway (hapart way hway)
      exact h.drops ⟨hreached, fun kind key => .inl (hsame kind key)⟩
  | remove path =>
    simp only [Visit.run]
    cases hremove : files.remove? path with
    | none => exact h
    | some files' => exact h.drops (hlies.drops_remove? h.reached hremove)
  | clear => exact h.drops (hlies.drops_clear h.reached)

theorem IsFrom.after (hlies : cache.LiesAt trail base) {visits : List Visit}
    (h : IsFrom cache trail base root asked files)
    (hmem : ∀ r ∈ requests cache root files visits, r ∈ asked)
    (hapart : ∀ visit ∈ visits, visit.IsApart cache base) :
    IsFrom cache trail base root asked (after cache root files visits) := by
  induction visits generalizing files with
  | nil => exact h
  | cons visit visits ih =>
    obtain ⟨hvisit, hvisits⟩ := List.forall_mem_cons.1 hapart
    obtain ⟨hfirst, hlater⟩ := List.forall_mem_append.1 hmem
    exact ih (h.run hlies (fun r hr => hfirst r (Option.mem_toList.2 hr)) hvisit) hlater hvisits

/-- A load comes to what was read for one of the requests, or to what is read for this one. -/
theorem IsFrom.load_cases {r : Request} (h : IsFrom cache trail base root asked r.files)
    {key text : String} {modified : Nat} (hkey : r.Names key)
    (htext : r.source? root key = some (text, modified)) :
    (∃ q ∈ asked, ∃ d, q.Reads root key modified (.ok d) ∧
        (r.load (some cache) root).1 = .ok d) ∨
      (r.load (some cache) root).1 = r.parse text := by
  rw [Request.load_of_source? hkey htext]
  dsimp only [Option.bind_some]
  cases hload : cache.loadDictionary? key modified r.files with
  | some d =>
    obtain ⟨q, hq, hreads⟩ := h.reads hload
    exact .inl ⟨q, hq, d, hreads, rfl⟩
  | none =>
    right
    dsimp only
    cases r.parse text <;> rfl

/-- A load comes to what is read for one of the requests, this one included. With the same text this
is what is loaded without a cache just if the requests are spelled alike. -/
theorem IsFrom.exists_load_eq {r : Request} (h : IsFrom cache trail base root asked r.files)
    {key text : String} {modified : Nat} (hkey : r.Names key)
    (htext : r.source? root key = some (text, modified)) :
    ∃ q ∈ r :: asked, q.Names key ∧ ∃ earlier, q.source? root key = some (earlier, modified) ∧
      (r.load (some cache) root).1 = q.parse earlier ∧
      (earlier = text →
        ((r.load (some cache) root).1 = (r.load none root).1 ↔
          q.language = r.language ∧ q.file = r.file) ∧
        (Format.ofFile q.file = .ofFile r.file →
          (r.load (some cache) root).1.map (under r.language r.file) = (r.load none root).1)) := by
  rw [Request.load_none hkey htext]
  rcases h.load_cases hkey htext with ⟨q, hq, d, ⟨hnames, earlier, hsource, hparse⟩, hload⟩ | hload
  · rw [hload]
    refine ⟨q, List.mem_cons_of_mem r hq, hnames, earlier, hsource, hparse.symm, ?_⟩
    rintro rfl
    refine ⟨?_, fun hformat => (parse_under hparse hformat).symm⟩
    rw [← hparse]
    exact parse_eq_parse_iff hparse
  · rw [hload]
    refine ⟨r, List.mem_cons_self, hkey, text, htext, rfl, fun _ => ⟨by simp, fun _ => ?_⟩⟩
    cases hparse : r.parse text with
    | error fault => rfl
    | ok d => exact congrArg Except.ok (under_of_parse hparse)

/-- After any visits to a folder of dictionaries, loading one through the cache comes to what is
loaded without it if there is no file to read. Else it comes to what was read for some request for
the same path, when its file had the time that it has now. If the file had the present text, too,
the cache shows just if that request gave another language or another spelling of the file; and even
then it does not show in the entries, unless the spelling names another format. -/
theorem load_after_visits (cache : Cache) (root : String) (files : Files) (visits : List Visit)
    (language file : String) (hlies : cache.LiesAt trail base)
    (hentries : ∀ kind source, files.at? (cache.entryPlace base kind source) = none)
    (hapart : ∀ visit ∈ visits, visit.IsApart cache base) :
    let present : Request := ⟨language, file, after cache root files visits⟩
    let loaded := (present.load (some cache) root).1
    let plain := (present.load none root).1
    ((∀ key, present.Names key → present.source? root key = none) → loaded = plain) ∧
    ∀ key text modified, present.Names key → present.source? root key = some (text, modified) →
      ∃ q ∈ present :: requests cache root files visits, q.Names key ∧
        ∃ earlier, q.source? root key = some (earlier, modified) ∧ loaded = q.parse earlier ∧
          (earlier = text →
            (loaded = plain ↔ q.language = language ∧ q.file = file) ∧
            (Format.ofFile q.file = .ofFile file → loaded.map (under language file) = plain)) := by
  intro present loaded plain
  have hreached : Reached cache trail base files := by
    intro kind source hsome
    rw [hentries] at hsome
    cases hsome
  have hstart : IsFrom cache trail base root (requests cache root files visits) files := by
    refine ⟨hreached, fun {key modified d} hload => ?_⟩
    rw [Cache.loadDictionary?_eq_some_iff, hlies.file?_entryPath hreached, hentries] at hload
    cases hload
  have hlast : IsFrom cache trail base root (requests cache root files visits) present.files :=
    hstart.after hlies (fun _ => id) hapart
  refine ⟨fun hnone => ?_, fun key text modified hkey htext => hlast.exists_load_eq hkey htext⟩
  obtain ⟨fault, hload⟩ := Request.exists_load_eq_error hnone
  exact congrArg Prod.fst ((hload (some cache)).trans (hload none).symm)

/-- A dictionary of one text. -/
def siteText : String := "<d><entry key='a'>b</entry></d>"

/-- The dictionary is written and loaded. -/
def siteVisits : List Visit :=
  [.write "lang/fr/site.xml" (.text siteText) 1, .load "fr" "site.xml"]

/-- Loaded under another spelling, the dictionary still has the name that it was stored with. -/
theorem load_after_visits_otherSpelling :
    let cache : Cache := ⟨".cache", Cache.digest⟩
    let present : Request := ⟨"fr", "./site.xml", after cache "lang" Files.empty siteVisits⟩
    let loaded := (present.load (some cache) "lang").1
    let plain := (present.load none "lang").1
    (∃ q ∈ present :: requests cache "lang" Files.empty siteVisits, q.Names "fr/site.xml" ∧
      ∃ earlier, q.source? "lang" "fr/site.xml" = some (earlier, 1) ∧ loaded = q.parse earlier) ∧
    loaded.toOption.map (·.file) = some "site.xml" ∧
    plain.toOption.map (·.file) = some "./site.xml" := by
  intro cache present loaded plain
  obtain ⟨trail, base, hlies⟩ : ∃ trail base, cache.LiesAt trail base :=
    Cache.exists_liesAt Cache.slash_notMem_digest (by decide)
  have hentries (kind source) : Files.empty.at? (cache.entryPlace base kind source) = none :=
    Files.at?_empty (Files.child_ne_top _ (hlies.isName source))
  have hapart : ∀ visit ∈ siteVisits, visit.IsApart cache base := by
    refine List.forall_mem_cons.2 ⟨?_, List.forall_mem_cons.2 ⟨trivial, List.forall_mem_nil _⟩⟩
    have hway : Files.way? "lang/fr/site.xml" =
        some ⟨["", "lang", "lang/fr"], "lang/fr/site.xml"⟩ := rfl
    have hlast : ∀ place ∈ ["lang/fr/site.xml", "", "lang", "lang/fr"],
        place.toList.getLast? ≠ some 'n' := by decide
    intro way hway' kind source hmem
    cases hway.symm.trans hway'
    exact entryPlace_ne cache base kind source _ (hlast _ hmem) rfl
  have hresult := (load_after_visits cache "lang" Files.empty siteVisits "fr" "./site.xml" hlies
    hentries hapart).2
  have hkey : present.Names "fr/site.xml" := by
    unfold Request.Names
    decide +kernel
  have htext : present.source? "lang" "fr/site.xml" = some (siteText, 1) := by decide +kernel
  obtain ⟨q, hq, hnames, earlier, hsource, hload, -⟩ := hresult _ _ _ hkey htext
  exact ⟨⟨q, hq, hnames, earlier, hsource, hload⟩, by decide +kernel, by decide +kernel⟩

end Dictionary

end XmlTemplate
