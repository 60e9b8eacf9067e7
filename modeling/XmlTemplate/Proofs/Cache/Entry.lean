import XmlTemplate.Proofs.Cache.Place
import XmlTemplate.Proofs.Json.ReadBack

/-!
# Entries of a cache

What a file of the cache spells: an entry, if it is a document with all fields of one and a payload
that can be read. Loading for a source at a time asks for the entry of this source and time.
-/

namespace XmlTemplate

namespace Cache

-- ---------------------------------------------------------------------------
-- What is cached of a kind
-- ---------------------------------------------------------------------------

namespace Kind

/-- What entries of a kind hold. -/
def Payload : Kind → Type
  | templates => Template
  | dictionaries => Dictionary

def toJson : (kind : Kind) → kind.Payload → Json
  | templates, (t : Template) => t.toJson
  | dictionaries, (d : Dictionary) => d.toJson

def ofDraft? : (kind : Kind) → Json.Draft → Option kind.Payload
  | templates => Template.ofDraft?
  | dictionaries => Dictionary.ofDraft?

end Kind

-- ---------------------------------------------------------------------------
-- Entries in files
-- ---------------------------------------------------------------------------

/-- Fields of a stored entry. -/
def entryFields : List String := ["version", "source", "mtime", "payload"]

/-- The entry that some content spells. -/
def entryIn? (kind : Kind) (content : Content) : Option (Entry kind.Payload) :=
  content.draft?.bind (Entry.ofDraft? kind.ofDraft?)

/-- A document without one of its fields. -/
def without? (field : String) : Content → Option Content
  | .document (.object fields) => some (.document (.object (Table.erase field fields)))
  | _ => none

/-- The entry in a file, if there is a file. -/
def entryOf? (kind : Kind) (file : Option (Content × Nat)) : Option (Entry kind.Payload) :=
  file.bind fun (content, _) => entryIn? kind content

variable {cache : Cache} {kind kind' : Kind} {key key' : String} {modified : Nat}
  {files files' : Files} {p : kind.Payload}

theorem load?_eq_some_iff : cache.load? kind kind.ofDraft? key modified files = some p ↔
    entryOf? kind (files.file? (cache.entryPath kind key)) = some ⟨key, modified, p⟩ := by
  simp only [load?, entryOf?, entryIn?, bind, Option.bind_eq_some_iff]
  constructor
  · rintro ⟨file, hfile, ⟨source, time, payload⟩, hentry, hpayload⟩
    split at hpayload
    · rename_i hsame
      obtain ⟨rfl, rfl⟩ := hsame
      cases hpayload
      exact ⟨file, hfile, hentry⟩
    · cases hpayload
  · rintro ⟨file, hfile, hentry⟩
    exact ⟨file, hfile, _, hentry, if_pos ⟨rfl, rfl⟩⟩

theorem loadTemplate?_eq_some_iff {t : Template} : cache.loadTemplate? key modified files = some t ↔
    entryOf? .templates (files.file? (cache.entryPath .templates key)) = some ⟨key, modified, t⟩ :=
  load?_eq_some_iff

theorem entryIn?_document (tree : Json) : entryIn? kind (.document tree) =
    ((Json.Draft.ofJson 0 tree).record? entryFields).bind fun fields =>
      (Json.Draft.required? fields "version" (Json.Draft.nat? 0xffffffff)).bind fun stored =>
      (Json.Draft.required? fields "source" Json.Draft.string?).bind fun source =>
      (Json.Draft.required? fields "mtime" (Json.Draft.nat? maxStored)).bind fun modified =>
      (Json.Draft.required? fields "payload" kind.ofDraft?).bind fun payload =>
        if stored = version then some ⟨source, modified, payload⟩ else none := rfl

/-- What is stored is an entry as far as its payload can be read. -/
theorem entryIn?_toJson (kind : Kind) (key : String) (modified : Nat) (payload : Json) :
    entryIn? kind (.document (Entry.toJson ⟨key, modified, payload⟩)) =
      if modified ≤ maxStored then
        (kind.ofDraft? (.ofJson 1 payload)).map fun payload => ⟨key, modified, payload⟩
      else none := by
  have hversion : Json.Draft.nat? 0xffffffff (.int version) = some version := by decide
  have hmodified : Json.Draft.nat? maxStored (.int modified) =
      if modified ≤ maxStored then some modified else none := by
    simp only [Json.Draft.nat?, Json.Draft.int?, Int.natCast_nonneg, true_and, Int.ofNat_le]
    split <;> simp
  rw [entryIn?_document, Entry.toJson, Json.Draft.record?, Json.Draft.recordFrom?_object]
  · split
    · cases hread : kind.ofDraft? (.ofJson 1 payload) <;>
        simp_all [Json.given, Json.maxDepth, Json.Draft.required?, Json.Draft.ofFields, Table.get?,
          Json.Draft.ofJson, Json.Draft.string?]
    · simp_all [Json.given, Json.maxDepth, Json.Draft.required?, Json.Draft.ofFields, Table.get?,
        Json.Draft.ofJson, Json.Draft.string?]
  · rfl
  · decide

namespace LiesAt

variable {trail : List String} {base : String} (h : cache.LiesAt trail base)
  (hreached : cache.Reached trail base files)

include h hreached

/-- Storing an entry touches nothing but the folder of its kind. -/
theorem of_store (hopen : ∀ x ∈ trail, files.isFolderAt x) (kind : Kind) (entry : Entry Json) :
    cache.Reached trail base (cache.store kind entry files) ∧
      (∀ x ∈ trail, (cache.store kind entry files).isFolderAt x) ∧
        ∀ x, ¬ Files.IsWithin (kindPlace base kind) x →
          (cache.store kind entry files).at? x = files.at? x := by
  unfold store
  cases hwrite : files.write? (cache.entryPath kind entry.source) (.document entry.toJson)
      entry.modified with
  | none => exact ⟨hreached, hopen, fun _ _ => rfl⟩
  | some written =>
    have hway := h.way?_entryPath kind entry.source
    have hentry := isWithin_entryPlace cache base kind entry.source
    refine ⟨(h.of_write?_entry hreached hwrite).1,
      fun x hx => Files.isFolderAt_of_write? hwrite (hopen x hx), fun x hx => ?_⟩
    by_cases hmem : x ∈ trail
    · -- A folder that is there is not made again.
      have hfolder := Files.isFolderAt_iff.1 (hopen x hmem)
      rw [Option.getD_some, hfolder]
      refine Files.at?_of_write?_of_some hwrite hway ?_ hfolder
      rintro rfl
      exact hx hentry
    · refine Files.at?_of_write? hwrite hway fun hplaces => ?_
      rcases List.mem_cons.1 hplaces with rfl | hthrough
      · exact hx hentry
      · rcases List.mem_append.1 hthrough with htrail | hkind
        · exact hmem htrail
        · exact hx (.inl (List.mem_singleton.1 hkind))

/-- Storing an entry adds at most one template, under the key of the entry. -/
theorem loadTemplate?_of_store {kind : Kind} {key path : String} {modified time : Nat}
    {p : kind.Payload} {t : Template} (hload : cache.loadTemplate? path time
      (cache.store kind ⟨key, modified, kind.toJson p⟩ files) = some t) :
    cache.loadTemplate? path time files = some t ∨ kind = .templates ∧ path = key := by
  unfold store at hload
  cases hwrite : files.write? (cache.entryPath kind key)
      (.document (Entry.toJson ⟨key, modified, kind.toJson p⟩)) modified with
  | none =>
    rw [hwrite] at hload
    exact .inl hload
  | some written =>
    have hfile := (h.of_write?_entry hreached hwrite).2 .templates path
    rw [hwrite, Option.getD_some, loadTemplate?_eq_some_iff, hfile] at hload
    split at hload
    · rename_i hplace
      obtain ⟨rfl, -⟩ := h.entryPlace_inj hplace
      have hentry := (entryIn?_toJson .templates key modified _).symm.trans hload
      split at hentry
      · obtain ⟨_, -, heq⟩ := Option.map_eq_some_iff.1 hentry
        cases heq
        exact .inr ⟨rfl, rfl⟩
      · cases hentry
    · exact .inl (loadTemplate?_eq_some_iff.2 hload)

end LiesAt

-- ---------------------------------------------------------------------------
-- What lies in a cache
-- ---------------------------------------------------------------------------

/-- The entry of a template is at its place, whether the place can be reached or not. -/
def Holds (cache : Cache) (files : Files) (path : String) (modified : Nat) (t : Template) : Prop :=
  ∃ way content time, Files.way? (cache.entryPath .templates path) = some way ∧
    files.at? way.goal = some (.file content time) ∧
    entryIn? .templates content = some ⟨path, modified, t⟩

variable {path : String} {time : Nat} {t stored : Template}

theorem holds_of_loadTemplate? (h : cache.loadTemplate? path modified files = some t) :
    cache.Holds files path modified t := by
  obtain ⟨⟨content, time⟩, hfile, hentry⟩ :=
    Option.bind_eq_some_iff.1 (loadTemplate?_eq_some_iff.1 h)
  obtain ⟨way, hway, -, hat⟩ := Files.file?_eq_some_iff.1 hfile
  exact ⟨way, content, time, hway, hat, hentry⟩

/-- What lies in a cache after an entry was stored lay there before, or is spelled by the entry. -/
theorem holds_of_store {entry : Entry Json}
    (h : cache.Holds (cache.store kind entry files) path time t) :
    cache.Holds files path time t ∨
      entryIn? .templates (.document entry.toJson) = some ⟨path, time, t⟩ := by
  unfold store at h
  cases hwrite : files.write? (cache.entryPath kind entry.source) (.document entry.toJson)
      entry.modified with
  | none =>
    rw [hwrite] at h
    exact .inl h
  | some written =>
    rw [hwrite] at h
    obtain ⟨way, content, changed, hway, hat, hentry⟩ := h
    rcases Files.file_of_write? hwrite hat with hbefore | rfl
    · exact .inl ⟨way, content, changed, hway, hbefore, hentry⟩
    · exact .inr hentry

/-- What lies in a cache after a template was stored lay there before, or is this template as it is
read back. -/
theorem holds_of_storeTemplate
    (h : cache.Holds (cache.storeTemplate stored modified files) path time t) :
    cache.Holds files path time t ∨ path = stored.path ∧ time = modified ∧
      Template.ofDraft? (.ofJson 1 stored.toJson) = some t := by
  refine (holds_of_store h).imp_right fun hentry => ?_
  rw [entryIn?_toJson] at hentry
  split at hentry
  · obtain ⟨_, hread, heq⟩ := Option.map_eq_some_iff.1 hentry
    cases heq
    exact ⟨rfl, rfl, hread⟩
  · cases hentry

/-- No dictionary is read as a template: it has no path. -/
theorem ofDraft?_toJson_dictionary (d : Dictionary) :
    Template.ofDraft? (.ofJson 1 d.toJson) = none := by
  unfold Template.ofDraft? Dictionary.toJson
  rw [Json.Draft.record?, Json.Draft.ofJson_object, if_pos (by decide), Json.Draft.recordFrom?]
  split
  · rfl
  · simp [Json.Draft.required?, Json.Draft.get?_ofFields, Table.get?]

theorem holds_of_storeDictionary {dictionary : Dictionary}
    (h : cache.Holds (cache.storeDictionary key dictionary modified files) path time t) :
    cache.Holds files path time t := by
  refine (holds_of_store h).resolve_right fun hentry => ?_
  rw [entryIn?_toJson] at hentry
  split at hentry
  · obtain ⟨_, hread, -⟩ := Option.map_eq_some_iff.1 hentry
    cases (ofDraft?_toJson_dictionary dictionary).symm.trans hread
  · cases hentry

end Cache

end XmlTemplate
